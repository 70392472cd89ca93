import PatchDynamics.Proofs.Grid.Wrapping

/-!
# The faces of the cube, and where wrapping ends

Whether a position is wrapped into the cube depends on the half edge. Next to the upper face the
distance from the lower face can round to the whole edge, and then one edge too many is taken off:

* `Fine.settled_wrap` — with a power of two as half edge every coordinate is moved to where it
  stays: outside the cube all steps are exact, and inside it what is left rounds to the lower face;
* `Proper.exists_below` — with another half edge whose last bit is zero, the number next to it is
  moved below the lower face;
* `wrapsInto_iff` — a position wraps into the cube where its coordinates become settled;
* `wrap_into_cube` — all of this, for positions.
-/

namespace PatchDynamics

open Rounding

/-- What holds of each component. -/
def Vec3.All (p : Float → Prop) (v : Vec3) : Prop := p v.x ∧ p v.y ∧ p v.z

namespace Grid

variable {g : Grid} {x : Float} {a t : ℤ}

/-! ## Powers of two -/

/-- The bits of a coordinate that is not in the cube count little enough for its place, and not less
than those of the half edge. -/
theorem exists_unit (hx : x.isFinite = true) (hout : 2 ^ a ≤ |value x|)
    (hnear : |value x| ≤ 1000 * 2 ^ a) :
    ∃ t, a - 52 ≤ t ∧ t < a ∧ Multiple t (value x) ∧ |value x| ≤ 2 ^ (t + 53) := by
  obtain ⟨u, -, hmul, hle⟩ := representable_value hx
  rcases le_or_gt u (a - 52) with hsmall | hlow
  · refine ⟨a - 52, le_rfl, by omega, ?_, hle.trans (unit_le_unit (by omega))⟩
    exact (representable_value hx).multiple_of_le (by rwa [sub_add_cancel])
  · rcases lt_or_ge u a with hhigh | hlarge
    · exact ⟨u, hlow.le, hhigh, hmul, hle⟩
    · refine ⟨a - 1, by omega, by omega, hmul.mono (by omega), hnear.trans ?_⟩
      rw [show a - 1 + 53 = 52 + a by ring, unit_add]
      exact mul_le_mul_of_nonneg_right (by norm_num) (unit_pos a).le

section PowerOfTwo

variable (hg : g.Proper) (ha : -1022 ≤ a) (hwidth : value g.halfWidth = 2 ^ a)
include hg ha hwidth

omit ha in
theorem value_edge_unit : value g.edge = 2 ^ (a + 1) := by
  rw [hg.value_edge, hwidth, unit_succ]

omit ha in
theorem multiple_edges (k : ℤ) : Multiple (a + 1) (value g.edge * k) := by
  rw [value_edge_unit hg hwidth, mul_comm]
  exact (Multiple.unit le_rfl).int_mul k

/-- The place of a number between the half edge and the edge. -/
theorem place_of_width {y : ℚ} (hle : value g.halfWidth ≤ |y|) (hlt : |y| < value g.edge) :
    Place y (a - 52) := by
  rw [value_edge_unit hg hwidth] at hlt
  rw [hwidth] at hle
  exact ⟨by omega, by rwa [show a - 52 + 53 = a + 1 by ring], .inr (by rwa [sub_add_cancel])⟩

/-- Near the upper face what is left rounds to the lower face, whose last bit is zero. -/
theorem Crossing.settled_wrap (h : g.Crossing x) (hhigh : value x < value g.halfWidth) :
    g.Settled (g.wrapCoordinate x) := by
  have hedge := hg.value_edge
  have hpos := h.positive
  obtain ⟨hfinite, hrounded⟩ := h.moved hg
  have hunit : (2 : ℚ) ^ a = ((2 ^ 52 : ℤ) : ℚ) * 2 ^ (a - 52) := by
    rw [show a = 52 + (a - 52) by ring, unit_add]
    norm_num
  have hsmall := unit_pos (a - 52)
  -- the distance from the lower face is rounded up, by half a unit at most
  have hplace := place_of_width hg ha hwidth (y := value x + value g.halfWidth)
    (by rw [abs_of_pos] <;> linarith) (by rw [abs_of_pos] <;> linarith)
  have herror := ((yields_add h.finite hg.finite).rounded h.sum).error_at hplace
  rw [h.sum_eq, hedge, abs_of_pos (by linarith)] at herror
  -- so that what is left is half a unit below the lower face at most
  have hplace' := place_of_width hg ha hwidth (y := value x - value g.edge)
    (by rw [abs_of_neg] <;> linarith) (by rw [abs_of_neg] <;> linarith)
  have hface : value (g.moved x) = ((-2 ^ 52 : ℤ) : ℚ) * 2 ^ (a - 52) := by
    refine hrounded.eq_of_even hplace' (by decide) (abs_le.mpr ⟨?_, ?_⟩)
    · push_cast at hunit ⊢
      linarith
    · push_cast at hunit ⊢
      linarith
  rw [(h.wrapped hg hhigh).1]
  refine .of_eq_low hg hfinite ?_
  rw [hface, hwidth, hunit]
  push_cast
  ring

/-- In the cube, the result is settled. -/
theorem settled_wrap_of_inside (hx : x.isFinite = true) (hlow : -value g.halfWidth ≤ value x)
    (hhigh : value x < value g.halfWidth) : g.Settled (g.wrapCoordinate x) := by
  rcases settled_or_crossing hg hx hlow hhigh with h | h
  · rwa [h.wrapCoordinate_eq hg]
  · exact h.settled_wrap hg ha hwidth hhigh

/-- **Rounding the distance from the lower face does not add an edge.** -/
theorem le_sum_of_le {s : ℚ} {k : ℤ} (hsum : Rounded (value x + value g.halfWidth) s)
    (hlow : a - 52 ≤ t) (hhigh : t < a) (hunits : Multiple t (value x))
    (hsmall : |value x| ≤ 2 ^ (t + 53)) (hle : value g.edge * k ≤ s) :
    value g.edge * k ≤ value x + value g.halfWidth := by
  have hhalf := hg.positive
  have hwhole : Multiple t (value x + value g.halfWidth) := hunits.add (hwidth ▸ .unit hhigh.le)
  by_contra hnot
  by_cases hfits : |value x + value g.halfWidth| ≤ 2 ^ (t + 53)
  · rw [hsum.eq_of_representable ⟨t, by omega, hwhole, hfits⟩] at hle
    exact hnot hle
  · -- the sum takes one bit more than the coordinate, and rounds to at most half an edge above that
    have hbeyond : 2 ^ (t + 53) < value x + value g.halfWidth := by
      obtain ⟨hxlow, -⟩ := abs_le.mp hsmall
      by_contra hle'
      exact hfits (abs_le.mpr ⟨by linarith, not_lt.mp hle'⟩)
    have hstep := (Multiple.unit (show a + 1 ≤ t + 53 by omega)).add_unit_le
      (multiple_edges hg hwidth k) (hbeyond.trans (not_le.mp hnot))
    rw [← value_edge_unit hg hwidth, hg.value_edge] at hstep
    have hrepresentable : Representable (2 ^ (t + 53) + value g.halfWidth) := by
      refine ⟨t + 1, by omega, hwidth ▸ (Multiple.unit (by omega)).add (.unit (by omega)), ?_⟩
      have : value g.halfWidth ≤ 2 ^ (t + 53) := hwidth ▸ unit_le_unit (by omega)
      rw [abs_of_pos (by linarith [unit_pos (t + 53)]), add_right_comm, unit_succ]
      linarith
    have := hsum.le_of_le hrepresentable (by linarith [le_abs_self (value x)])
    rw [hg.value_edge] at hle
    linarith

/-- Few edges are a number of 53 bits. -/
theorem representable_edges {k : ℤ} (hk : |value g.edge * k| ≤ 1002 * value g.halfWidth) :
    Representable (value g.edge * k) := by
  have hunit := unit_pos a
  refine ⟨a + 1, by omega, multiple_edges hg hwidth k, hk.trans ?_⟩
  rw [hwidth, show a + 1 + 53 = 54 + a by ring, unit_add]
  exact mul_le_mul_of_nonneg_right (by norm_num) hunit.le

/-- The distance from the lower face, counted in edges: the quotient is exact. -/
theorem Fine.quotient_eq (h : g.Fine x) (hlow : a - 52 ≤ t) (hhigh : t < a)
    (hunits : Multiple t (value x)) :
    value ((x + g.halfWidth) / g.edge) = value (x + g.halfWidth) / value g.edge := by
  have hsum := h.rounded_sum hg
  have hmultiple := hsum.multiple (hunits.add (hwidth ▸ .unit hhigh.le)) (by omega)
  refine (h.rounded_quotient hg).eq_of_representable ?_
  rw [value_edge_unit hg hwidth, div_eq_mul_inv, ← zpow_neg]
  exact hsum.representable.mul_unit hmultiple (by omega)

/-- **The distance has as many edges** before it is rounded as after. -/
theorem Fine.exists_edges (h : g.Fine x) (hlow : a - 52 ≤ t) (hhigh : t < a)
    (hunits : Multiple t (value x)) (hsmall : |value x| ≤ 2 ^ (t + 53))
    (hnear : |value x| ≤ 1000 * value g.halfWidth) :
    ∃ k : ℤ, value (g.turns x) = k ∧ Representable (value g.edge * k) ∧
      -value g.halfWidth ≤ value x - value g.edge * k ∧
      value x - value g.edge * k < value g.halfWidth := by
  have hedge := hg.value_edge
  have hedgepos := hg.edge_pos
  obtain ⟨hxlow, hxhigh⟩ := abs_le.mp hnear
  have hsum := h.rounded_sum hg
  obtain ⟨k, hk⟩ : ∃ k, k = ⌊value ((x + g.halfWidth) / g.edge)⌋ := ⟨_, rfl⟩
  have hnext : value g.edge * (k + 1 : ℤ) = value g.edge * k + value g.edge := by
    push_cast
    ring
  have hfloor : value g.edge * k ≤ value (x + g.halfWidth) ∧
      value (x + g.halfWidth) < value g.edge * (k + 1 : ℤ) := by
    have hboth := Int.floor_eq_iff.mp hk.symm
    rw [h.quotient_eq hg ha hwidth hlow hhigh hunits, le_div_iff₀ hedgepos,
      div_lt_iff₀ hedgepos] at hboth
    rw [hnext]
    constructor <;> linarith [hboth.1, hboth.2]
  have hbelow := le_sum_of_le hg ha hwidth hsum hlow hhigh hunits hsmall hfloor.1
  -- a number of edges that bounds the count from below
  have hleast : value g.edge * (-500 : ℤ) ≤ value (x + g.halfWidth) := by
    refine hsum.ge_of_ge (representable_edges hg ha hwidth (abs_le.mpr ?_)) ?_
    · push_cast
      constructor <;> linarith
    · push_cast
      linarith
  push_cast at hleast
  have habove : value x + value g.halfWidth < value g.edge * (k + 1 : ℤ) := by
    by_contra hge
    have hfew : |value g.edge * (k + 1 : ℤ)| ≤ 1002 * value g.halfWidth :=
      abs_le.mpr ⟨by linarith [hfloor.2], by linarith⟩
    have := hsum.ge_of_ge (representable_edges hg ha hwidth hfew) (not_lt.mp hge)
    exact absurd this hfloor.2.not_ge
  refine ⟨k, by rw [h.turns_eq.2, hk], ?_, by linarith, by linarith⟩
  exact representable_edges hg ha hwidth (abs_le.mpr ⟨by linarith [hfloor.2], by linarith⟩)

/-- **Outside the cube**, the edges are taken off without any loss. -/
theorem Fine.settled_wrap_of_outside (h : g.Fine x) (hout : 2 ^ a ≤ |value x|)
    (hnear : |value x| ≤ 1000 * value g.halfWidth) : g.Settled (g.wrapCoordinate x) := by
  have hedge := hg.value_edge
  obtain ⟨t, hlow, hhigh, hunits, hsmall⟩ := exists_unit h.coordinate hout (hwidth ▸ hnear)
  obtain ⟨k, hk, hedges, hrestlow, hresthigh⟩ :=
    h.exists_edges hg ha hwidth hlow hhigh hunits hsmall hnear
  have hproduct : value (g.edge * g.turns x) = value g.edge * k := by
    have hrounded := h.rounded_product hg
    rw [hk] at hrounded
    exact hrounded.eq_of_representable hedges
  have hrest : Multiple t (value x - value g.edge * k) :=
    hunits.sub ((multiple_edges hg hwidth k).mono (by omega))
  have hroom : value g.edge ≤ 2 ^ (t + 53) := by
    rw [value_edge_unit hg hwidth]
    exact unit_le_unit (by omega)
  have hmoved : value (g.moved x) = value x - value g.edge * k := by
    have hrounded := h.rounded_difference
    rw [hproduct] at hrounded
    exact hrounded.eq_of_representable ⟨t, by omega, hrest, abs_le.mpr ⟨by linarith, by linarith⟩⟩
  rw [wrapCoordinate_of_lt hg h.moved (by linarith)]
  refine ⟨h.moved, by linarith, by linarith, ?_⟩
  -- its distance from the lower face is not rounded
  have hsum := (hg.sum h.moved (by linarith) (by linarith)).2
  rw [hmoved] at hsum
  rw [hsum.eq_of_representable ⟨t, by omega, hrest.add (hwidth ▸ .unit hhigh.le),
    abs_le.mpr ⟨by linarith, by linarith⟩⟩]
  linarith

/-- **Every coordinate is moved to where it stays**, if the half edge is a power of two. -/
theorem Fine.settled_wrap (h : g.Fine x) (hnear : |value x| ≤ 1000 * value g.halfWidth) :
    g.Settled (g.wrapCoordinate x) := by
  have hx := h.coordinate
  by_cases hin : -value g.halfWidth ≤ value x ∧ value x < value g.halfWidth
  · exact settled_wrap_of_inside hg ha hwidth hx hin.1 hin.2
  · refine h.settled_wrap_of_outside hg ha hwidth ?_ hnear
    rw [← hwidth, le_abs']
    by_contra hnot
    push Not at hnot
    exact hin ⟨hnot.1.le, hnot.2⟩

end PowerOfTwo

/-! ## Other half edges -/

section LastBitZero

variable (hg : g.Proper) (hplace : Place (value g.halfWidth) t)
  (hlead : 2 ^ (t + 52) < value g.halfWidth) (heven : Multiple (t + 1) (value g.halfWidth))

include hlead heven in
/-- The half edge is two units away from the power of two below it. -/
theorem two_units_le : 2 ^ (t + 52) + 2 * 2 ^ t ≤ value g.halfWidth := by
  have hroom := (Multiple.unit (show t + 1 ≤ t + 52 by omega)).add_unit_le heven hlead
  rwa [unit_succ] at hroom

include hg hplace hlead heven

/-- The number next to the half edge. -/
theorem exists_next : ∃ x, x.isFinite = true ∧ value x = value g.halfWidth - 2 ^ t := by
  have hpos := hg.positive
  have hunit := unit_pos t
  have hlarge := unit_pos (t + 52)
  have hroom := two_units_le hlead heven
  have hbelow := hplace.below
  rw [abs_of_pos hpos] at hbelow
  have hnext : Place (value g.halfWidth - 2 ^ t) t := by
    refine ⟨hplace.least, ?_, .inr ?_⟩
    · rw [abs_of_pos (by linarith)]
      linarith
    · rw [abs_of_pos (by linarith)]
      linarith
  have hle : value g.halfWidth - 2 ^ t ≤ value g.edge := by
    rw [hg.value_edge]
    linarith
  exact exists_of_place hnext ((heven.mono (by omega)).sub (.unit le_rfl)) (by linarith)
    (hle.trans_lt hg.edge_lt)

/-- **Below the lower face**: where the half edge is no power of two and its last bit is zero, the
number next to it is moved beyond the lower face. -/
theorem Proper.exists_below : ∃ x, g.Crossing x ∧ value x = value g.halfWidth - 2 ^ t ∧
    value (g.moved x) = -(value g.halfWidth + 2 ^ t) := by
  have hpos := hg.positive
  have hedge := hg.value_edge
  have hunit := unit_pos t
  have hlarge := unit_pos (t + 52)
  have hleast := hplace.least
  have hroom := two_units_le hlead heven
  have hbelow := hplace.below
  rw [abs_of_pos hpos] at hbelow
  have hunits : Multiple t (value g.halfWidth) := heven.mono (by omega)
  obtain ⟨x, hx, hvalue⟩ := exists_next hg hplace hlead heven
  have hyields := yields_add hx hg.finite
  have hsum := hyields.isFinite (representable_value hg.edge) hg.edge_lt
    (abs_le.mpr ⟨by linarith, by linarith⟩)
  -- the sum is half a unit below the edge, whose last bit is zero
  have hplace' : Place (value x + value g.halfWidth) (t + 1) := by
    refine ⟨by omega, ?_, .inr ?_⟩
    · rw [abs_of_pos (by linarith), add_right_comm, unit_succ]
      linarith
    · rw [abs_of_pos (by linarith), add_right_comm, unit_succ]
      linarith
  have hsumeq : value (x + g.halfWidth) = value g.edge := by
    obtain ⟨j, hj⟩ := heven
    have htwice : ((2 * j : ℤ) : ℚ) * 2 ^ (t + 1) = value g.edge := by
      rw [hedge, hj]
      push_cast
      ring
    rw [← htwice]
    refine (hyields.rounded hsum).eq_of_even hplace' (even_two_mul j) ?_
    rw [htwice, unit_succ]
    exact abs_le.mpr ⟨by linarith, by linarith⟩
  have hcrossing : g.Crossing x := ⟨hx, by linarith, by linarith, hsum, hsumeq⟩
  refine ⟨x, hcrossing, hvalue, ?_⟩
  have hmoved := (hcrossing.moved hg).2
  rw [show value x - value g.edge = -(value g.halfWidth + 2 ^ t) by linarith] at hmoved
  refine hmoved.eq_of_representable (Representable.neg ⟨t, hleast, hunits.add (.unit le_rfl), ?_⟩)
  rw [abs_of_pos (by linarith)]
  exact hunits.add_unit_le (.unit (by omega)) hbelow

end LastBitZero

/-! ## Positions -/

/-- The positions that wrapping is meant for: nothing overflows, and no coordinate is more than a
thousand half edges away. -/
structure Admits (g : Grid) (v : Vec3) : Prop where
  /-- the edge does not overflow -/
  edge : g.edge.isFinite = true
  /-- no coordinate is far away -/
  near : v.All fun x => |value x| ≤ 1000 * value g.halfWidth
  /-- no stage overflows -/
  fine : v.All g.Fine

/-- Wrapping a position ends in the cube, and for good. -/
structure WrapsInto (g : Grid) (v : Vec3) : Prop where
  /-- the result is in the cube -/
  inside : (g.wrap v).All fun c => -g.halfWidth ≤ c ∧ c < g.halfWidth
  /-- and stays where it is -/
  stays : g.wrap (g.wrap v) = g.wrap v
  /-- in the same patch -/
  patch : g.patchOf (g.wrap v) = g.patchOf v

theorem Fine.settled_iff (hg : g.Proper) (h : g.Fine x) : g.Settled (g.wrapCoordinate x) ↔
    -g.halfWidth ≤ g.wrapCoordinate x ∧ g.wrapCoordinate x + g.halfWidth < g.edge := by
  have hfinite := (h.wrapped hg).1
  have hhigh := h.high hg
  have hlow : -g.halfWidth ≤ g.wrapCoordinate x ↔
      -value g.halfWidth ≤ value (g.wrapCoordinate x) := by
    rw [le_iff (isFinite_neg hg.finite) hfinite, value_neg hg.finite]
  rw [hlow]
  constructor
  · intro hsettled
    have hsum := (hg.sum hfinite hsettled.low hhigh).1
    exact ⟨hsettled.low, (lt_iff hsum hg.edge).mpr hsettled.sum⟩
  · rintro ⟨hge, hlt⟩
    have hsum := (hg.sum hfinite hge hhigh).1
    exact ⟨hfinite, hge, hhigh, (lt_iff hsum hg.edge).mp hlt⟩

/-- A coordinate that is in the cube and stays there is settled, and conversely. -/
theorem Fine.settled_iff_stays (hg : g.Proper) (h : g.Fine x) : g.Settled (g.wrapCoordinate x) ↔
    (-g.halfWidth ≤ g.wrapCoordinate x ∧ g.wrapCoordinate x < g.halfWidth) ∧
      g.wrapCoordinate (g.wrapCoordinate x) = g.wrapCoordinate x := by
  have hfinite := (h.wrapped hg).1
  have hhigh := h.high hg
  rw [le_iff (isFinite_neg hg.finite) hfinite, lt_iff hfinite hg.finite, value_neg hg.finite]
  constructor
  · exact fun hsettled => ⟨⟨hsettled.low, hhigh⟩, hsettled.wrapCoordinate_eq hg⟩
  · rintro ⟨⟨hlow, -⟩, hstays⟩
    exact (wrapCoordinate_eq_self_iff hg hfinite hlow hhigh).mp hstays

/-- **A position wraps into the cube** where all its coordinates are settled. -/
theorem wrapsInto_iff {v : Vec3} (hg : g.Proper) (h : v.All g.Fine) :
    g.WrapsInto v ↔ (g.wrap v).All g.Settled := by
  obtain ⟨hx, hy, hz⟩ := h
  have hall := and_congr (hx.settled_iff_stays hg)
    (and_congr (hy.settled_iff_stays hg) (hz.settled_iff_stays hg))
  refine Iff.trans ⟨?_, ?_⟩ hall.symm
  · rintro ⟨⟨hinx, hiny, hinz⟩, hstays, -⟩
    obtain ⟨hsx, hsy, hsz⟩ := Vec3.mk.inj hstays
    exact ⟨⟨hinx, hsx⟩, ⟨hiny, hsy⟩, hinz, hsz⟩
  · rintro ⟨⟨hinx, hsx⟩, ⟨hiny, hsy⟩, hinz, hsz⟩
    have hstays : g.wrap (g.wrap v) = g.wrap v := Vec3.mk.injEq .. ▸ ⟨hsx, hsy, hsz⟩
    exact ⟨⟨hinx, hiny, hinz⟩, hstays, by simp only [patchOf, hstays]⟩

/-- No stage is subnormal where the number next to the half edge is moved beyond the lower face. -/
theorem Crossing.not_subnormal (hg : g.Proper) (h : g.Crossing x)
    (hlarge : 2 ^ (-1022 : ℤ) ≤ value x) (hmoved : value (g.moved x) ≤ -value g.halfWidth)
    (hlt : value x ≤ value g.halfWidth) : ∀ y ∈ g.stages x, ¬ Subnormal y := by
  have hle : ∀ y ∈ g.stages x, 2 ^ (-1022 : ℤ) ≤ |value y| := by
    have hedge := hg.value_edge
    have hone : (2 : ℚ) ^ (-1022 : ℤ) ≤ 1 :=
      (unit_le_unit (show (-1022 : ℤ) ≤ 0 by norm_num)).trans (zpow_zero (2 : ℚ)).le
    simp only [stages, List.mem_cons, List.not_mem_nil, or_false, forall_eq_or_imp, forall_eq,
      h.sum_eq, (h.quotient hg).2, (h.product hg).2, le_abs]
    refine ⟨.inl hlarge, .inl ?_, .inl hone, .inl ?_, .inr ?_⟩ <;> linarith [h.positive]
  exact fun y hy hsmall => absurd hsmall.abs_value_lt (hle y hy).not_gt

/-- **A position that ends below the lower faces**, with nothing too large or too small on the
way. -/
theorem Proper.exists_position_below (hg : g.Proper) (hplace : Place (value g.halfWidth) t)
    (hlead : 2 ^ (t + 52) < value g.halfWidth) (heven : Multiple (t + 1) (value g.halfWidth)) :
    ∃ v, g.Admits v ∧ (v.All fun x => ∀ y ∈ g.stages x, ¬ Subnormal y) ∧
      (g.wrap v).All fun c => c < -g.halfWidth := by
  obtain ⟨x, hx, hvalue, hmoved⟩ := hg.exists_below hplace hlead heven
  have hunit := unit_pos t
  have hfine := hx.fine hg
  have hnear : |value x| ≤ 1000 * value g.halfWidth :=
    abs_le.mpr ⟨by linarith [hx.positive], by linarith [hg.positive]⟩
  have hbelow : g.wrapCoordinate x < -g.halfWidth := by
    rw [(hx.wrapped hg (by linarith)).1, lt_iff hfine.moved (isFinite_neg hg.finite),
      value_neg hg.finite, hmoved]
    linarith
  have hlarge : 2 ^ (-1022 : ℤ) ≤ value x := by
    have hleast := hplace.least
    have hroom := two_units_le hlead heven
    exact (unit_le_unit (show -1022 ≤ t + 52 by omega)).trans (by linarith)
  have hnormal := hx.not_subnormal hg hlarge (by linarith) (by linarith)
  exact ⟨⟨x, x, x⟩, ⟨hg.edge, ⟨hnear, hnear, hnear⟩, hfine, hfine, hfine⟩,
    ⟨hnormal, hnormal, hnormal⟩, hbelow, hbelow, hbelow⟩

/-- **Where wrapping ends.** Every coordinate of the result is below the upper face, and below the
lower face by no more than rounding amounts to. The result is in the cube and stays there, in the
patch of the position, exactly if no coordinate is below the lower face and no distance from the
lower face rounds to the whole edge. That is so for all positions if the half edge is a power of
two; if it is not and its last bit is zero, there is a position that ends below the lower faces,
although nothing overflows on the way and nothing is subnormal. -/
theorem wrap_into_cube (hfinite : g.halfWidth.isFinite = true) (hpositive : 0 < g.halfWidth) :
    (∀ v, g.Admits v →
      ((g.wrap v).All fun c => c < g.halfWidth ∧
        -((1 + 1 / 2 ^ 40) * value g.halfWidth) ≤ value c) ∧
      (g.WrapsInto v ↔ (g.wrap v).All fun c => -g.halfWidth ≤ c ∧ c + g.halfWidth < g.edge)) ∧
    (∀ a : ℤ, -1022 ≤ a → value g.halfWidth = 2 ^ a → ∀ v, g.Admits v → g.WrapsInto v) ∧
    ∀ t : ℤ, g.edge.isFinite = true → Place (value g.halfWidth) t →
      2 ^ (t + 52) < value g.halfWidth → Multiple (t + 1) (value g.halfWidth) →
      ∃ v, g.Admits v ∧ (v.All fun x => ∀ y ∈ g.stages x, ¬ Subnormal y) ∧
        (g.wrap v).All fun c => c < -g.halfWidth := by
  have hpos : 0 < value g.halfWidth := by
    rw [lt_iff isFinite_zero hfinite, value_zero] at hpositive
    exact hpositive
  have hproper : ∀ {v}, g.Admits v → g.Proper := fun h => ⟨hfinite, hpos, h.edge⟩
  refine ⟨fun v hv => ⟨?_, ?_⟩, fun a ha hwidth v hv => ?_, fun t hedge hplace hlead heven => ?_⟩
  · have hg := hproper hv
    have hbounds : ∀ {x}, g.Fine x → |value x| ≤ 1000 * value g.halfWidth →
        g.wrapCoordinate x < g.halfWidth ∧
          -((1 + 1 / 2 ^ 40) * value g.halfWidth) ≤ value (g.wrapCoordinate x) := fun h hnear =>
      ⟨(lt_iff (h.wrapped hg).1 hfinite).mpr (h.high hg), h.low hg hnear⟩
    exact ⟨hbounds hv.fine.1 hv.near.1, hbounds hv.fine.2.1 hv.near.2.1,
      hbounds hv.fine.2.2 hv.near.2.2⟩
  · have hg := hproper hv
    rw [wrapsInto_iff hg hv.fine]
    exact and_congr (hv.fine.1.settled_iff hg)
      (and_congr (hv.fine.2.1.settled_iff hg) (hv.fine.2.2.settled_iff hg))
  · have hg := hproper hv
    rw [wrapsInto_iff hg hv.fine]
    exact ⟨hv.fine.1.settled_wrap hg ha hwidth hv.near.1,
      hv.fine.2.1.settled_wrap hg ha hwidth hv.near.2.1,
      hv.fine.2.2.settled_wrap hg ha hwidth hv.near.2.2⟩
  · exact Proper.exists_position_below ⟨hfinite, hpos, hedge⟩ hplace hlead heven

theorem value_one : value 1 = 1 := by
  change amount (.finite .positive (2 ^ 52) (-52) (by norm_num)) = 1
  norm_num [amount, factor]

theorem value_three_halves : value 1.5 = 3 / 2 := by
  change amount (.finite .positive (3 * 2 ^ 51) (-52) (by norm_num)) = 3 / 2
  norm_num [amount, factor]

/-- In the cube with half edge one, a position is wrapped from two sides; with half edge one and a
half, some position ends below. -/
theorem wrap_into_cube_instances :
    (((Grid.new 2 1).wrap ⟨2.5, 0, -7⟩).All fun c =>
        c < 1 ∧ -((1 + 1 / 2 ^ 40) * value 1) ≤ value c) ∧
      (Grid.new 2 1).WrapsInto ⟨2.5, 0, -7⟩ ∧
      ∃ v, (Grid.new 2 1.5).Admits v ∧
        (v.All fun x => ∀ y ∈ (Grid.new 2 1.5).stages x, ¬ Subnormal y) ∧
        ((Grid.new 2 1.5).wrap v).All fun c => c < -1.5 := by
  have hfirst : value 2.5 = 5 / 2 := by
    change amount (.finite .positive (5 * 2 ^ 50) (-51) (by norm_num)) = 5 / 2
    norm_num [amount, factor]
  have hlast : value (-7) = -7 := by
    change amount (.finite .negative (7 * 2 ^ 50) (-50) (by norm_num)) = -7
    norm_num [amount, factor]
  have hadmits : (Grid.new 2 1).Admits ⟨2.5, 0, -7⟩ := by
    refine ⟨rfl, ⟨?_, ?_, ?_⟩, fine_iff.mpr ⟨rfl, rfl, rfl, rfl, rfl⟩,
      fine_iff.mpr ⟨rfl, rfl, rfl, rfl, rfl⟩, fine_iff.mpr ⟨rfl, rfl, rfl, rfl, rfl⟩⟩
    · change |value 2.5| ≤ 1000 * value 1
      rw [hfirst, value_one]
      norm_num
    · change |value 0| ≤ 1000 * value 1
      rw [value_zero, value_one]
      norm_num
    · change |value (-7)| ≤ 1000 * value 1
      rw [hlast, value_one]
      norm_num
  obtain ⟨hbounds, hpowers, -⟩ := wrap_into_cube (g := Grid.new 2 1) rfl (by decide)
  obtain ⟨-, -, hothers⟩ := wrap_into_cube (g := Grid.new 2 1.5) rfl (by decide)
  refine ⟨(hbounds _ hadmits).1, hpowers 0 (by norm_num) (value_one.trans (by norm_num)) _ hadmits,
    hothers (-52) rfl ?_ ?_ ?_⟩
  · change Place (value 1.5) (-52)
    rw [value_three_halves]
    refine ⟨by norm_num, ?_, .inr ?_⟩ <;> norm_num
  · change 2 ^ (-52 + 52 : ℤ) < value 1.5
    rw [value_three_halves]
    norm_num
  · change Multiple (-52 + 1) (value 1.5)
    rw [value_three_halves]
    exact ⟨3 * 2 ^ 50, by norm_num⟩

/-- **The number next to one and a half**, in the cube with that half edge: it ends below the lower
face, wrapping the result moves it back up, and the patches of the two are different. -/
theorem wrap_leaves_cube :
    let g := Grid.new 2 1.5
    let v : Vec3 := ⟨Float.ofBits 0x3ff7ffffffffffff, 0, 0⟩
    (g.halfWidth.isFinite = true ∧ 0 < g.halfWidth ∧ g.Admits v ∧
      v.All fun x => ∀ y ∈ g.stages x, ¬ Subnormal y) ∧
    (g.wrap v).x < -g.halfWidth ∧ g.wrap (g.wrap v) ≠ g.wrap v ∧
      g.patchOf (g.wrap v) ≠ g.patchOf v := by
  have hnear : ∀ {x : Float}, x.isFinite = true → 0 ≤ x → x ≤ 1.5 →
      |value x| ≤ 1000 * value (Grid.new 2 1.5).halfWidth := by
    intro x hx hlow hhigh
    change |value x| ≤ 1000 * value 1.5
    rw [le_iff isFinite_zero hx, value_zero] at hlow
    rw [le_iff hx rfl, value_three_halves] at hhigh
    rw [abs_of_nonneg hlow, value_three_halves]
    linarith
  have hnormal : ∀ {x : Float},
      ((Grid.new 2 1.5).stages x).all (fun y => !decide (Subnormal y)) = true →
      ∀ y ∈ (Grid.new 2 1.5).stages x, ¬ Subnormal y := by
    intro x hall y hy
    simpa using List.all_eq_true.mp hall y hy
  have hfar := hnear (x := Float.ofBits 0x3ff7ffffffffffff) rfl (by decide) (by decide)
  have horigin := hnear (x := 0) rfl (by decide) (by decide)
  refine ⟨⟨rfl, by decide, ⟨rfl, ⟨hfar, horigin, horigin⟩, ?_, ?_, ?_⟩,
    hnormal rfl, hnormal rfl, hnormal rfl⟩, by decide, fun hsame => ?_, by decide +kernel⟩
  · exact fine_iff.mpr ⟨rfl, rfl, rfl, rfl, rfl⟩
  · exact fine_iff.mpr ⟨rfl, rfl, rfl, rfl, rfl⟩
  · exact fine_iff.mpr ⟨rfl, rfl, rfl, rfl, rfl⟩
  · exact absurd (congrArg (fun w => w.x.toBits) hsame) (by decide +kernel)

end Grid

end PatchDynamics
