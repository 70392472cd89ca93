import Mathlib
import PatchDynamics.Grid
import PatchDynamics.Proofs.Rounding.Arithmetic
import PatchDynamics.Proofs.Rounding.Integral

/-!
# Where wrapping puts a coordinate

Wrapping takes the edge of the cube off a coordinate as often as it goes into the distance from the
lower face. A sum, a quotient, a product and a difference are rounded on the way:

* `Grid.stages` — all that is computed, `Grid.Fine` — none of it overflows;
* `Fine.high`, `Fine.low` — the result is below the upper face, and below the lower face by no more
  than the roundings amount to;
* `Settled` — a coordinate in the cube that is not so near to the upper face that its distance from
  the lower one rounds to the whole edge, `Settled.wrapCoordinate_eq` — it stays where it is;
* `Crossing` — a coordinate that is as near as that, `Crossing.wrapped` — it ends at the lower face
  or below it;
* `wrapCoordinate_eq_self_iff` — in the cube there are only these two.
-/

namespace PatchDynamics

open Rounding

namespace Grid

variable {g : Grid} {x c : Float}

/-! ## The stages -/

/-- How often the edge of the cube is taken off a coordinate. -/
def turns (g : Grid) (x : Float) : Float := integralBelow ((x + g.halfWidth) / g.edge)

/-- The coordinate with the edges taken off. -/
def moved (g : Grid) (x : Float) : Float := x - g.edge * g.turns x

theorem wrapCoordinate_eq (g : Grid) (x : Float) :
    g.wrapCoordinate x = if g.moved x ≥ g.halfWidth then -g.halfWidth else g.moved x := rfl

/-- What wrapping a coordinate computes. -/
def stages (g : Grid) (x : Float) : List Float :=
  [x, x + g.halfWidth, (x + g.halfWidth) / g.edge, g.edge * g.turns x, g.moved x]

/-- No stage overflows. -/
def Fine (g : Grid) (x : Float) : Prop := ∀ y ∈ g.stages x, y.isFinite = true

theorem fine_iff : g.Fine x ↔ x.isFinite = true ∧ (x + g.halfWidth).isFinite = true ∧
    ((x + g.halfWidth) / g.edge).isFinite = true ∧ (g.edge * g.turns x).isFinite = true ∧
    (g.moved x).isFinite = true := by
  simp [Fine, stages]

/-- The half edge is positive, and the edge does not overflow. -/
structure Proper (g : Grid) : Prop where
  /-- the half edge is a number -/
  finite : g.halfWidth.isFinite = true
  /-- it is positive -/
  positive : 0 < value g.halfWidth
  /-- its double is a number -/
  edge : g.edge.isFinite = true

theorem value_two : value 2 = 2 := by
  change amount (.finite .positive (2 ^ 52) (-51) (by norm_num)) = 2
  norm_num [amount, factor]

namespace Proper

variable (hg : g.Proper)
include hg

theorem representable : Representable (value g.halfWidth) := representable_value hg.finite

theorem value_edge : value g.edge = 2 * value g.halfWidth := by
  have hyields := yields_mul (x := 2) rfl hg.finite
  rw [value_two] at hyields
  exact (hyields.rounded hg.edge).eq_of_representable hg.representable.double

theorem edge_pos : 0 < value g.edge := by
  rw [hg.value_edge]
  exact mul_pos two_pos hg.positive

theorem edge_lt : value g.edge < 2 ^ (1024 : ℤ) := (le_abs_self _).trans_lt (abs_value_lt hg.edge)

/-- The distance from the lower face of what is in the cube does not overflow. -/
theorem sum (hc : c.isFinite = true) (hlow : -value g.halfWidth ≤ value c)
    (hhigh : value c < value g.halfWidth) : (c + g.halfWidth).isFinite = true ∧
      Rounded (value c + value g.halfWidth) (value (c + g.halfWidth)) := by
  have hyields := yields_add hc hg.finite
  have hfinite : (c + g.halfWidth).isFinite = true := by
    refine hyields.isFinite (representable_value hg.edge) hg.edge_lt (abs_le.mpr ?_)
    rw [hg.value_edge]
    constructor <;> linarith
  exact ⟨hfinite, hyields.rounded hfinite⟩

end Proper

/-- What is left is the result, unless it reaches the upper face. -/
theorem wrapCoordinate_of_lt (hg : g.Proper) (hmoved : (g.moved x).isFinite = true)
    (hlt : value (g.moved x) < value g.halfWidth) : g.wrapCoordinate x = g.moved x := by
  rw [wrapCoordinate_eq, if_neg]
  exact fun hge => absurd ((le_iff hg.finite hmoved).mp hge) hlt.not_ge

/-! ## Bounds of the result -/

/-- An error is bounded by what the number is bounded by. -/
theorem abs_le_of_error {a b n : ℚ} (h : |a - b| ≤ |b| / 2 ^ 53) (hb : |b| ≤ n) :
    -(n / 2 ^ 53) ≤ a - b ∧ a - b ≤ n / 2 ^ 53 :=
  abs_le.mp (h.trans (div_le_div_of_nonneg_right hb (by positivity)))

/-- What the errors of the stages add up to. -/
theorem low_of_errors {h x s q k p m : ℚ} (hpos : 0 < h) (hx : |x| ≤ 1000 * h)
    (hs : |s - (x + h)| ≤ |x + h| / 2 ^ 53)
    (hq : |q - s / (2 * h)| ≤ |s / (2 * h)| / 2 ^ 53 + 2 ^ (-1075 : ℤ))
    (hk : k ≤ q) (hk' : q < k + 1) (hp : |p - 2 * h * k| ≤ |2 * h * k| / 2 ^ 53)
    (hm : |m - (x - p)| ≤ |x - p| / 2 ^ 53) : -((1 + 1 / 2 ^ 40) * h) ≤ m := by
  obtain ⟨hxlow, hxhigh⟩ := abs_le.mp hx
  obtain ⟨hslow, hshigh⟩ := abs_le_of_error hs (n := 1001 * h)
    (abs_le.mpr ⟨by linarith, by linarith⟩)
  have hedge : 0 < 2 * h := by linarith
  -- the quotient, counted in edges
  have hback : |2 * h * q - s| ≤ 1003 * h / 2 ^ 53 := by
    have hsum : |s| ≤ 1002 * h := abs_le.mpr ⟨by linarith, by linarith⟩
    have htiny : (2 : ℚ) ^ (-1075 : ℤ) ≤ 1 / 2 ^ 54 :=
      (unit_le_unit (show (-1075 : ℤ) ≤ -54 by norm_num)).trans (by norm_num)
    calc |2 * h * q - s| = 2 * h * |q - s / (2 * h)| := by
          rw [← abs_of_pos hedge, ← abs_mul, abs_of_pos hedge, mul_sub, mul_div_cancel₀ _ hedge.ne']
      _ ≤ 2 * h * (|s / (2 * h)| / 2 ^ 53 + 1 / 2 ^ 54) :=
          mul_le_mul_of_nonneg_left (hq.trans (by linarith)) hedge.le
      _ = (|s| + h) / 2 ^ 53 := by
          rw [abs_div, abs_of_pos hedge]
          field_simp
      _ ≤ 1003 * h / 2 ^ 53 := by linarith
  obtain ⟨hqlow, hqhigh⟩ := abs_le.mp hback
  have hfloor : 2 * h * k ≤ 2 * h * q := mul_le_mul_of_nonneg_left hk hedge.le
  have hceil : 2 * h * q < 2 * h * k + 2 * h := by
    have := mul_lt_mul_of_pos_left hk' hedge
    linarith
  obtain ⟨hplow, hphigh⟩ := abs_le_of_error hp (n := 1005 * h)
    (abs_le.mpr ⟨by linarith, by linarith⟩)
  obtain ⟨hmlow, -⟩ := abs_le_of_error hm (n := 2007 * h)
    (abs_le.mpr ⟨by linarith, by linarith⟩)
  linarith

namespace Fine

variable (h : g.Fine x)
include h

theorem coordinate : x.isFinite = true := (fine_iff.mp h).1

theorem moved : (g.moved x).isFinite = true := (fine_iff.mp h).2.2.2.2

theorem turns_eq : (g.turns x).isFinite = true ∧
    value (g.turns x) = ⌊value ((x + g.halfWidth) / g.edge)⌋ :=
  integralBelow_exact (fine_iff.mp h).2.2.1

theorem rounded_difference :
    Rounded (value x - value (g.edge * g.turns x)) (value (g.moved x)) :=
  (yields_sub h.coordinate (fine_iff.mp h).2.2.2.1).rounded h.moved

variable (hg : g.Proper)
include hg

theorem rounded_sum : Rounded (value x + value g.halfWidth) (value (x + g.halfWidth)) :=
  (yields_add h.coordinate hg.finite).rounded (fine_iff.mp h).2.1

theorem rounded_quotient : Rounded (value (x + g.halfWidth) / value g.edge)
    (value ((x + g.halfWidth) / g.edge)) :=
  (yields_div (fine_iff.mp h).2.1 hg.edge hg.edge_pos.ne').rounded (fine_iff.mp h).2.2.1

theorem rounded_product : Rounded (value g.edge * value (g.turns x)) (value (g.edge * g.turns x)) :=
  (yields_mul hg.edge h.turns_eq.1).rounded (fine_iff.mp h).2.2.2.1

/-- The result is the lower face, or what is left is. -/
theorem wrapped : (g.wrapCoordinate x).isFinite = true ∧
    (value (g.wrapCoordinate x) = -value g.halfWidth ∨
      value (g.wrapCoordinate x) = value (g.moved x) ∧ value (g.moved x) < value g.halfWidth) := by
  rw [wrapCoordinate_eq]
  split_ifs with hge
  · exact ⟨isFinite_neg hg.finite, .inl (value_neg hg.finite)⟩
  · exact ⟨h.moved, .inr ⟨rfl, not_le.mp fun hle => hge ((le_iff hg.finite h.moved).mpr hle)⟩⟩

/-- **Nothing is put on the upper face or beyond.** -/
theorem high : value (g.wrapCoordinate x) < value g.halfWidth := by
  obtain ⟨-, heq | ⟨heq, hlt⟩⟩ := h.wrapped hg
  · rw [heq]
    linarith [hg.positive]
  · rwa [heq]

/-- **How far below the lower face a result is**, at most, for a coordinate of up to a thousand half
edges. -/
theorem low (hnear : |value x| ≤ 1000 * value g.halfWidth) :
    -((1 + 1 / 2 ^ 40) * value g.halfWidth) ≤ value (g.wrapCoordinate x) := by
  have hpos := hg.positive
  obtain ⟨-, heq | ⟨heq, -⟩⟩ := h.wrapped hg
  · rw [heq]
    linarith
  have hunits := hg.representable.multiple
  have hcoordinate := (representable_value h.coordinate).multiple
  have hsum := (h.rounded_sum hg).error_of_multiple (hcoordinate.add hunits)
  have hquotient := (h.rounded_quotient hg).error
  have hproduct := (h.rounded_product hg).error_of_multiple <| by
    rw [h.turns_eq.2, mul_comm]
    exact (representable_value hg.edge).multiple.int_mul _
  have hmoved := h.rounded_difference.error_of_multiple <|
    hcoordinate.sub (h.rounded_product hg).representable.multiple
  rw [h.turns_eq.2] at hproduct
  have hfloor := Int.floor_le (value ((x + g.halfWidth) / g.edge))
  have hceil := Int.lt_floor_add_one (value ((x + g.halfWidth) / g.edge))
  rw [heq]
  rw [hg.value_edge] at hquotient hproduct
  exact low_of_errors hpos hnear hsum hquotient hfloor hceil hproduct hmoved

end Fine

/-! ## What stays and what is moved -/

/-- A coordinate in the cube whose distance from the lower face does not round to the whole edge. -/
structure Settled (g : Grid) (c : Float) : Prop where
  /-- it is a number -/
  finite : c.isFinite = true
  /-- it is not below the lower face -/
  low : -value g.halfWidth ≤ value c
  /-- it is below the upper face -/
  high : value c < value g.halfWidth
  /-- it is a fraction of the edge away from the lower face -/
  sum : value (c + g.halfWidth) < value g.edge

/-- The lower face is settled. -/
theorem Settled.of_eq_low (hg : g.Proper) (hc : c.isFinite = true)
    (hlow : value c = -value g.halfWidth) : g.Settled c := by
  have hpos := hg.positive
  obtain ⟨-, hsum⟩ := hg.sum hc hlow.ge (by linarith)
  rw [hlow, neg_add_cancel] at hsum
  refine ⟨hc, hlow.ge, by linarith, ?_⟩
  rw [hsum.eq_of_representable .zero]
  exact hg.edge_pos

theorem one_lt_unit : (1 : ℚ) < 2 ^ (1024 : ℤ) :=
  (zpow_zero (2 : ℚ)).symm.trans_lt (unit_lt_unit (by norm_num))

namespace Settled

variable (hg : g.Proper) (h : g.Settled c)
include hg h

/-- The edge goes into the distance less than once. -/
theorem quotient : ((c + g.halfWidth) / g.edge).isFinite = true ∧
    0 ≤ value ((c + g.halfWidth) / g.edge) ∧ value ((c + g.halfWidth) / g.edge) < 1 := by
  obtain ⟨hfinite, hsum⟩ := hg.sum h.finite h.low h.high
  have hedge := hg.edge_pos
  have hnonneg : 0 ≤ value (c + g.halfWidth) := hsum.nonneg (by linarith [h.low])
  have hlow : 0 ≤ value (c + g.halfWidth) / value g.edge := div_nonneg hnonneg hedge.le
  have hhigh : value (c + g.halfWidth) / value g.edge ≤ 1 - 1 / 2 ^ 53 := by
    rw [div_le_iff₀ hedge, mul_comm]
    exact hsum.representable.le_of_lt (representable_value hg.edge) hedge h.sum
  have hyields := yields_div hfinite hg.edge hedge.ne'
  have hquotient := hyields.isFinite .pred_one
    ((by norm_num : (1 : ℚ) - 1 / 2 ^ 53 < 1).trans one_lt_unit)
    (abs_le.mpr ⟨le_trans (by norm_num) hlow, hhigh⟩)
  have hrounded := hyields.rounded hquotient
  refine ⟨hquotient, hrounded.nonneg hlow, ?_⟩
  exact (hrounded.le_of_le .pred_one hhigh).trans_lt (by norm_num)

theorem turns_eq_zero : (g.turns c).isFinite = true ∧ value (g.turns c) = 0 := by
  obtain ⟨hfinite, hlow, hhigh⟩ := h.quotient hg
  obtain ⟨hturns, hvalue⟩ := integralBelow_exact hfinite
  exact ⟨hturns, by rw [turns, hvalue, Int.floor_eq_zero_iff.mpr ⟨hlow, hhigh⟩, Int.cast_zero]⟩

theorem product_eq_zero : (g.edge * g.turns c).isFinite = true ∧
    value (g.edge * g.turns c) = 0 := by
  obtain ⟨hturns, hvalue⟩ := h.turns_eq_zero hg
  have hyields := yields_mul hg.edge hturns
  rw [hvalue, mul_zero] at hyields
  have hfinite := hyields.isFinite .zero (unit_pos 1024) abs_zero.le
  exact ⟨hfinite, (hyields.rounded hfinite).eq_of_representable .zero⟩

/-- A coordinate other than zero is left with its value. -/
theorem moved_of_ne_zero (hne : value c ≠ 0) : g.moved c = c := by
  obtain ⟨hproduct, hvalue⟩ := h.product_eq_zero hg
  have hyields := yields_sub h.finite hproduct
  rw [hvalue, sub_zero] at hyields
  have hfinite := hyields.isFinite hg.representable
    ((le_abs_self _).trans_lt (abs_value_lt hg.finite)) (abs_le.mpr ⟨h.low, h.high.le⟩)
  have hmoved := (hyields.rounded hfinite).eq_of_representable (representable_value h.finite)
  exact eq_of_value hfinite h.finite hmoved (hmoved ▸ hne)

/-- A zero keeps its sign: what is taken off is the positive zero. -/
theorem moved_of_zero (hzero : value c = 0) : g.moved c = c := by
  have hedge := hg.edge_pos
  have hpositive : 0 < value ((c + g.halfWidth) / g.edge) := by
    obtain ⟨hfinite, hsum⟩ := hg.sum h.finite h.low h.high
    rw [hzero, zero_add] at hsum
    have hhalf : value (c + g.halfWidth) / value g.edge = 2 ^ (-1 : ℤ) := by
      rw [hsum.eq_of_representable hg.representable, hg.value_edge,
        div_mul_cancel_right₀ hg.positive.ne']
      norm_num
    have hrounded := (yields_div hfinite hg.edge hedge.ne').rounded (h.quotient hg).1
    rw [hhalf] at hrounded
    rw [hrounded.eq_of_representable (.unit (by norm_num))]
    exact unit_pos _
  have hturns : g.turns c = 0 := eq_of_unpack
    (integralBelow_proper (h.quotient hg).1 hpositive (h.quotient hg).2.2)
  have hproduct : g.edge * 0 = 0 := by
    obtain ⟨m, e, hm, hunpack⟩ := unpack_of_value_pos hedge
    change Float.ofModel (.pack (.mul .binary64 g.edge.toModel.unpack _)) = 0
    rw [hunpack]
    rfl
  rw [Grid.moved, hturns, hproduct]
  obtain ⟨s, hs⟩ := unpack_of_value_eq_zero h.finite hzero
  cases s with
  | positive =>
    obtain rfl : c = 0 := eq_of_unpack hs
    rfl
  | negative =>
    obtain rfl : c = -0 := eq_of_unpack hs
    rfl

/-- **A settled coordinate stays where it is**, to the last bit. -/
theorem wrapCoordinate_eq : g.wrapCoordinate c = c := by
  have hmoved : g.moved c = c := by
    by_cases hzero : value c = 0
    · exact h.moved_of_zero hg hzero
    · exact h.moved_of_ne_zero hg hzero
  rw [wrapCoordinate_of_lt hg (hmoved.symm ▸ h.finite) (hmoved.symm ▸ h.high), hmoved]

end Settled

/-- A positive coordinate whose distance from the lower face rounds to the whole edge. -/
structure Crossing (g : Grid) (x : Float) : Prop where
  /-- it is a number -/
  finite : x.isFinite = true
  /-- it is positive -/
  positive : 0 < value x
  /-- it is less than the edge -/
  lt : value x < value g.edge
  /-- its distance does not overflow -/
  sum : (x + g.halfWidth).isFinite = true
  /-- its distance is the edge -/
  sum_eq : value (x + g.halfWidth) = value g.edge

namespace Crossing

variable (hg : g.Proper) (h : g.Crossing x)
include hg h

/-- The edge goes into the distance once. -/
theorem quotient : ((x + g.halfWidth) / g.edge).isFinite = true ∧
    value ((x + g.halfWidth) / g.edge) = 1 := by
  have hne := hg.edge_pos.ne'
  have hyields := yields_div h.sum hg.edge hne
  rw [h.sum_eq, div_self hne] at hyields
  have hfinite := hyields.isFinite .one one_lt_unit abs_one.le
  exact ⟨hfinite, (hyields.rounded hfinite).eq_of_representable .one⟩

/-- The edge is taken off. -/
theorem product : (g.edge * g.turns x).isFinite = true ∧
    value (g.edge * g.turns x) = value g.edge := by
  obtain ⟨hfinite, hone⟩ := h.quotient hg
  obtain ⟨hturns, hvalue⟩ := integralBelow_exact hfinite
  rw [hone, Int.floor_one, Int.cast_one] at hvalue
  have hyields := yields_mul hg.edge hturns
  rw [hvalue, mul_one] at hyields
  have hrepresentable := representable_value hg.edge
  have hproduct := hyields.isFinite hrepresentable hg.edge_lt (abs_of_pos hg.edge_pos).le
  exact ⟨hproduct, (hyields.rounded hproduct).eq_of_representable hrepresentable⟩

theorem moved : (g.moved x).isFinite = true ∧
    Rounded (value x - value g.edge) (value (g.moved x)) := by
  obtain ⟨hproduct, hvalue⟩ := h.product hg
  have hyields := yields_sub h.finite hproduct
  rw [hvalue] at hyields
  have hfinite := hyields.isFinite (representable_value hg.edge) hg.edge_lt
    (abs_le.mpr ⟨by linarith [h.positive], by linarith [h.lt, hg.edge_pos]⟩)
  exact ⟨hfinite, hyields.rounded hfinite⟩

theorem fine : g.Fine x :=
  fine_iff.mpr ⟨h.finite, h.sum, (h.quotient hg).1, (h.product hg).1, (h.moved hg).1⟩

/-- **A coordinate in the cube is moved to the lower face or below it.** -/
theorem wrapped (hhigh : value x < value g.halfWidth) :
    g.wrapCoordinate x = g.moved x ∧ value (g.moved x) ≤ -value g.halfWidth := by
  obtain ⟨hfinite, hrounded⟩ := h.moved hg
  have hle : value (g.moved x) ≤ -value g.halfWidth := by
    refine hrounded.le_of_le hg.representable.neg ?_
    rw [hg.value_edge]
    linarith
  exact ⟨wrapCoordinate_of_lt hg hfinite (by linarith [hg.positive]), hle⟩

end Crossing

/-- In the cube, a coordinate is one or the other. -/
theorem settled_or_crossing (hg : g.Proper) (hc : c.isFinite = true)
    (hlow : -value g.halfWidth ≤ value c) (hhigh : value c < value g.halfWidth) :
    g.Settled c ∨ g.Crossing c := by
  have hpos := hg.positive
  have hedge := hg.value_edge
  obtain ⟨hfinite, hsum⟩ := hg.sum hc hlow hhigh
  have hle : value (c + g.halfWidth) ≤ value g.edge :=
    hsum.le_of_le (representable_value hg.edge) (by linarith)
  rcases hle.lt_or_eq with hlt | heq
  · exact .inl ⟨hc, hlow, hhigh, hlt⟩
  · have hpositive : 0 < value c := by
      by_contra hnonpos
      have := hsum.le_of_le hg.representable (by linarith)
      linarith
    exact .inr ⟨hc, hpositive, by linarith, hfinite, heq⟩

/-- **In the cube, the settled coordinates are those that stay.** -/
theorem wrapCoordinate_eq_self_iff (hg : g.Proper) (hc : c.isFinite = true)
    (hlow : -value g.halfWidth ≤ value c) (hhigh : value c < value g.halfWidth) :
    g.wrapCoordinate c = c ↔ g.Settled c := by
  refine ⟨fun hstays => ?_, fun h => h.wrapCoordinate_eq hg⟩
  refine (settled_or_crossing hg hc hlow hhigh).resolve_right fun h => ?_
  obtain ⟨heq, hle⟩ := h.wrapped hg hhigh
  rw [← heq, hstays] at hle
  linarith [h.positive, hg.positive]

end Grid

end PatchDynamics
