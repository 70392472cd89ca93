import Mathlib.Data.Int.ModEq
import Mathlib.Data.List.ProdSigma
import Mathlib.Data.List.Perm.Basic
import PatchDynamics.Proofs.Grid.Cells

/-!
# Neighbours

Two patches touch if they are different and their cells are at most one step apart along each axis,
the axes closing on themselves. On a grid with few cells several steps lead to the same cell, and a
pair of patches is met from both sides; still everything is listed once:

* `Touches` — the relation, from the numbers of the cells;
* `Fits.mem_around` — the neighbours of a patch are the patches that touch it;
* `touching` — the pairs of patches that touch, the one with the smaller number first;
* `Fits.neighborPairs_perm` — these are the pairs of neighbours that are listed, each once;
* `Fits.tasks_patches` — the patches of the tasks;
* `Fits.touches_of_side_le` — with three cells along each axis, or fewer, all patches touch.
-/

namespace PatchDynamics

namespace Grid

/-! ## Lists in order -/

theorem pairwise_ascending {α : Type} [BEq α] {le : α → α → Bool}
    (trans : ∀ a b c, le a b → le b c → le a c) (total : ∀ a b, le a b || le b a) (l : List α) :
    (ascending le l).Pairwise fun a b => le a b :=
  (List.pairwise_mergeSort trans total l).sublist (eraseReps_sublist _)

section Ascending

variable {α : Type} [BEq α] [LawfulBEq α] {le : α → α → Bool}

/-- In a sorted list repetitions are next to each other, so all of them are erased. -/
theorem eraseReps_sorted (antisymm : ∀ a b, le a b → le b a → a = b) {l : List α}
    (sorted : l.Pairwise fun a b => le a b) :
    l.eraseReps.Nodup ∧ ∀ a, a ∈ l.eraseReps ↔ a ∈ l := by
  -- what the loop keeps of a list with a given first entry
  have hloop : ∀ (l : List α) (a : α) (done : List α), (a :: l).Pairwise (fun a b => le a b) →
      ∃ kept, List.eraseRepsBy.loop (· == ·) a l done = done.reverse ++ kept ∧ kept.Nodup ∧
        ∀ b, b ∈ kept ↔ b ∈ a :: l := by
    intro l
    induction l with
    | nil => exact fun a done _ => ⟨[a], by simp [List.eraseRepsBy.loop], by simp, fun _ => .rfl⟩
    | cons b l ih =>
      intro a done hsorted
      obtain ⟨hfirst, hrest⟩ := List.pairwise_cons.mp hsorted
      rw [List.eraseRepsBy.loop]
      cases hsame : a == b with
      | true =>
        obtain rfl := beq_iff_eq.mp hsame
        obtain ⟨kept, hkept, hnodup, hmem⟩ := ih a done hrest
        exact ⟨kept, hkept, hnodup, fun c => by rw [hmem]; simp⟩
      | false =>
        obtain ⟨kept, hkept, hnodup, hmem⟩ := ih b (a :: done) hrest
        refine ⟨a :: kept, by simp [hkept], List.nodup_cons.mpr ⟨fun ha => ?_, hnodup⟩, ?_⟩
        · -- the first entry is below the second one, and it does not come again
          have hne : a ≠ b := beq_eq_false_iff_ne.mp hsame
          rcases List.mem_cons.mp ((hmem a).mp ha) with heq | ha
          · exact hne heq
          · have hle := (List.pairwise_cons.mp hrest).1 a ha
            exact hne (antisymm a b (hfirst b List.mem_cons_self) hle)
        · intro c
          rw [List.mem_cons, hmem, List.mem_cons (a := c) (b := a)]
  cases l with
  | nil => exact ⟨List.nodup_nil, fun _ => .rfl⟩
  | cons a l =>
    obtain ⟨kept, hkept, hnodup, hmem⟩ := hloop l a [] sorted
    have heq : (a :: l).eraseReps = kept := hkept
    rw [heq]
    exact ⟨hnodup, hmem⟩

/-- **A list in ascending order** has the same entries, each once. -/
theorem ascending_spec (trans : ∀ a b c, le a b → le b c → le a c)
    (total : ∀ a b, le a b || le b a) (antisymm : ∀ a b, le a b → le b a → a = b) (l : List α) :
    (ascending le l).Nodup ∧ ∀ a, a ∈ ascending le l ↔ a ∈ l := by
  obtain ⟨hnodup, hmem⟩ := eraseReps_sorted antisymm (List.pairwise_mergeSort trans total l)
  refine ⟨hnodup, fun a => (hmem a).trans List.mem_mergeSort⟩

end Ascending

/-- **Patches in ascending order**. -/
theorem ascending_patches (l : List PatchId) :
    (ascending PatchId.le l).Nodup ∧ ∀ p, p ∈ ascending PatchId.le l ↔ p ∈ l := by
  refine ascending_spec (fun a b c => ?_) (fun a b => ?_) (fun a b => ?_) l
  · simp only [PatchId.le, decide_eq_true_eq]
    exact UInt32.le_trans
  · simp only [PatchId.le, Bool.or_eq_true, decide_eq_true_eq]
    exact UInt32.le_total a.number b.number
  · simp only [PatchId.le, decide_eq_true_eq]
    exact fun hab hba => congrArg PatchId.mk (UInt32.le_antisymm hab hba)

theorem pairLe_trans (a b c : PatchId × PatchId) (hab : pairLe a b) (hbc : pairLe b c) :
    pairLe a c := by
  simp only [pairLe, Bool.or_eq_true, Bool.and_eq_true, decide_eq_true_eq, UInt32.lt_iff_toNat_lt,
    UInt32.le_iff_toNat_le, ← UInt32.toNat_inj] at hab hbc ⊢
  omega

theorem pairLe_total (a b : PatchId × PatchId) : pairLe a b || pairLe b a := by
  simp only [pairLe, Bool.or_eq_true, Bool.and_eq_true, decide_eq_true_eq, UInt32.lt_iff_toNat_lt,
    UInt32.le_iff_toNat_le, ← UInt32.toNat_inj]
  omega

theorem pairLe_antisymm (a b : PatchId × PatchId) (hab : pairLe a b) (hba : pairLe b a) :
    a = b := by
  obtain ⟨⟨a⟩, ⟨a'⟩⟩ := a
  obtain ⟨⟨b⟩, ⟨b'⟩⟩ := b
  simp only [pairLe, Bool.or_eq_true, Bool.and_eq_true, decide_eq_true_eq, UInt32.lt_iff_toNat_lt,
    UInt32.le_iff_toNat_le, Prod.mk.injEq, PatchId.mk.injEq, ← UInt32.toNat_inj] at hab hba ⊢
  omega

/-- **Pairs of patches in ascending order**. -/
theorem ascending_pairs (l : List (PatchId × PatchId)) :
    (ascending pairLe l).Nodup ∧ ∀ pair, pair ∈ ascending pairLe l ↔ pair ∈ l :=
  ascending_spec pairLe_trans pairLe_total pairLe_antisymm l

/-! ## Touching -/

/-- Whether two cells are at most one step apart along one axis, the axis closing on itself. -/
def Near (g : Grid) (c c' : Nat) : Prop :=
  ∃ step ∈ ([-1, 0, 1] : List Int), (c' : Int) ≡ c + step [ZMOD g.side]

instance (g : Grid) (c c' : Nat) : Decidable (g.Near c c') :=
  inferInstanceAs (Decidable
    (∃ step ∈ ([-1, 0, 1] : List Int), (c' : Int) ≡ c + step [ZMOD g.side]))

/-- The cell numbers of a patch along the three axes. -/
def cellsOf (g : Grid) (p : PatchId) : Nat × Nat × Nat :=
  (p.number.toNat % g.side, p.number.toNat / g.side % g.side, p.number.toNat / (g.side * g.side))

/-- Whether two patches are different and touch at a face, an edge or a corner of their cells. -/
def Touches (g : Grid) (p q : PatchId) : Prop :=
  p ≠ q ∧ g.Near (g.cellsOf p).1 (g.cellsOf q).1 ∧ g.Near (g.cellsOf p).2.1 (g.cellsOf q).2.1 ∧
    g.Near (g.cellsOf p).2.2 (g.cellsOf q).2.2

instance (g : Grid) (p q : PatchId) : Decidable (g.Touches p q) :=
  inferInstanceAs (Decidable (p ≠ q ∧ g.Near (g.cellsOf p).1 (g.cellsOf q).1 ∧
    g.Near (g.cellsOf p).2.1 (g.cellsOf q).2.1 ∧ g.Near (g.cellsOf p).2.2 (g.cellsOf q).2.2))

/-- The pairs of patches that touch, the one with the smaller number first. -/
def touching (g : Grid) : List (PatchId × PatchId) :=
  (g.patches ×ˢ g.patches).filter fun (p, q) => p.number < q.number ∧ g.Touches p q

variable {g : Grid} {p q : PatchId}

theorem Near.symm {c c' : Nat} (h : g.Near c c') : g.Near c' c := by
  obtain ⟨step, hstep, hnear⟩ := h
  refine ⟨-step, ?_, ?_⟩
  · simp only [List.mem_cons, List.not_mem_nil, or_false] at hstep ⊢
    omega
  · have hback := hnear.symm.add_right (-step)
    rwa [add_neg_cancel_right] at hback

theorem Touches.symm (h : g.Touches p q) : g.Touches q p :=
  ⟨h.1.symm, h.2.1.symm, h.2.2.1.symm, h.2.2.2.symm⟩

/-- With three cells along an axis, or fewer, all are near each other. -/
theorem near_of_side_le (hside : 0 < g.side) (hsmall : g.side ≤ 3) (c c' : Nat) : g.Near c c' := by
  have hpos : (0 : Int) < g.side := by exact_mod_cast hside
  have hlow := Int.emod_nonneg ((c' : Int) - c) (ne_of_gt hpos)
  have hhigh := Int.emod_lt_of_pos ((c' : Int) - c) hpos
  have hway : (c' : Int) ≡ c + ((c' : Int) - c) % g.side [ZMOD g.side] := by
    have hshift := (Int.mod_modEq ((c' : Int) - c) g.side).symm.add_left (c : Int)
    rwa [add_sub_cancel] at hshift
  generalize ((c' : Int) - c) % g.side = way at hlow hhigh hway
  -- the way from one to the other is no step, one, or two, and two steps are one back
  obtain rfl | rfl | rfl : way = 0 ∨ way = 1 ∨ way = 2 := by omega
  · exact ⟨0, by simp, hway⟩
  · exact ⟨1, by simp, hway⟩
  · have hthree : g.side = 3 := by omega
    refine ⟨-1, by simp, hway.trans ?_⟩
    rw [hthree]
    exact (Int.modEq_iff_dvd.mpr ⟨-1, by omega⟩ : (c : Int) + 2 ≡ c + -1 [ZMOD 3])

/-! ## The cells of a patch -/

/-- A patch is found at its cells. -/
theorem patchAt_cellsOf (g : Grid) (p : PatchId) :
    g.patchAt (g.cellsOf p).1 (g.cellsOf p).2.1 (g.cellsOf p).2.2 = .ok p := by
  have hnumber : p.number.toNat % g.side + g.side * (p.number.toNat / g.side % g.side +
      g.side * (p.number.toNat / (g.side * g.side))) = p.number.toNat := by
    rw [← Nat.div_div_eq_div_mul, Nat.mod_add_div, Nat.mod_add_div]
  rw [patchAt, cellsOf]
  dsimp only
  rw [hnumber, checked_of_lt p.number.toNat_lt]
  change Except.ok _ = _
  rw [UInt32.ofNat_toNat]

/-- The cell at a step is the one that is that far. -/
theorem shift_eq_iff (hside : 0 < g.side) {c c' : Nat} (hc' : c' < g.side) (step : Int) :
    g.shift c step = c' ↔ (c' : Int) ≡ c + step [ZMOD g.side] := by
  have hpos : (0 : Int) < g.side := by exact_mod_cast hside
  have hlow := Int.emod_nonneg ((c : Int) + step) (ne_of_gt hpos)
  have hsmall : (c' : Int) % g.side = c' := Int.emod_eq_of_lt (by omega) (by exact_mod_cast hc')
  rw [shift, Int.ModEq, hsmall]
  omega

namespace Fits

theorem layer_lt (h : g.Fits) : g.side * g.side < UInt32.size := by
  have hle := Nat.le_mul_of_pos_right (g.side * g.side) h.side
  exact Nat.lt_of_le_of_lt hle h.cells

theorem coordinates_eq (h : g.Fits) (p : PatchId) : g.coordinates p = .ok (g.cellsOf p) := by
  rw [coordinates, checked_of_lt h.layer_lt]
  rfl

theorem cellsOf_lt (h : g.Fits) (hp : p ∈ g.patches) :
    (g.cellsOf p).1 < g.side ∧ (g.cellsOf p).2.1 < g.side ∧ (g.cellsOf p).2.2 < g.side := by
  have hlt : p.number.toNat < g.side * g.side * g.side := h.mem_patches.mp hp
  exact ⟨Nat.mod_lt _ h.side, Nat.mod_lt _ h.side, Nat.div_lt_of_lt_mul hlt⟩

/-- The cells of the patch at some cells are these. -/
theorem cellsOf_patchAt (h : g.Fits) {x y z : Nat} (hx : x < g.side) (hy : y < g.side)
    (hz : z < g.side) (hp : g.patchAt x y z = .ok p) : g.cellsOf p = (x, y, z) := by
  have hlt := index_lt hx hy hz
  have hpatch : p = ⟨UInt32.ofNat (x + g.side * (y + g.side * z))⟩ := by
    rw [patchAt, checked_of_lt (Nat.lt_trans hlt h.cells)] at hp
    exact (Except.ok.inj hp).symm
  have hnumber : p.number.toNat = x + g.side * (y + g.side * z) := by
    rw [hpatch]
    exact h.toNat_ofNat hlt
  rw [cellsOf, hnumber, ← Nat.div_div_eq_div_mul, Nat.add_mul_mod_self_left, Nat.mod_eq_of_lt hx,
    Nat.add_mul_div_left _ _ h.side, Nat.div_eq_of_lt hx, Nat.zero_add, Nat.add_mul_mod_self_left,
    Nat.mod_eq_of_lt hy, Nat.add_mul_div_left _ _ h.side, Nat.div_eq_of_lt hy, Nat.zero_add]

theorem near_iff (h : g.Fits) {c c' : Nat} (hc' : c' < g.side) :
    g.Near c c' ↔ ∃ step ∈ ([-1, 0, 1] : List Int), g.shift c step = c' := by
  simp only [Near, shift_eq_iff h.side hc']

end Fits

theorem mem_steps {x y z : Int} : (x, y, z) ∈ steps ↔
    x ∈ ([-1, 0, 1] : List Int) ∧ y ∈ ([-1, 0, 1] : List Int) ∧ z ∈ ([-1, 0, 1] : List Int) := by
  simp only [steps, List.mem_flatMap, List.mem_map, Prod.mk.injEq]
  constructor
  · rintro ⟨z, hz, y, hy, x, hx, rfl, rfl, rfl⟩
    exact ⟨hx, hy, hz⟩
  · rintro ⟨hx, hy, hz⟩
    exact ⟨z, hz, y, hy, x, hx, rfl, rfl, rfl⟩

/-! ## Neighbours -/

/-- The neighbours of a patch; none, should they not be found. -/
def around (g : Grid) (p : PatchId) : List PatchId :=
  match g.neighbors p with
  | .ok l => l
  | .error _ => []

namespace Fits

/-- **The neighbours of a patch** are found, each once, and they are the patches that touch it. -/
theorem mem_around (h : g.Fits) (p : PatchId) :
    g.neighbors p = .ok (g.around p) ∧ (g.around p).Nodup ∧
      ∀ q, q ∈ g.around p ↔ q ∈ g.patches ∧ g.Touches p q := by
  rcases hcells : g.cellsOf p with ⟨x, y, z⟩
  -- the patch at a step
  let there := fun step : Int × Int × Int =>
    g.patchAt (g.shift x step.1) (g.shift y step.2.1) (g.shift z step.2.2)
  have hthere : ∀ step, ∃ q, there step = .ok q ∧ q ∈ g.patches := fun step =>
    h.patchAt_mem (h.shift_lt _ _) (h.shift_lt _ _) (h.shift_lt _ _)
  choose find hfind hpatch using hthere
  have hneighbors : g.neighbors p =
      .ok (ascending PatchId.le ((steps.map find).filter (· ≠ p))) := by
    rw [neighbors, h.coordinates_eq, hcells]
    change (do
      let around ← steps.mapM there
      return ascending PatchId.le (around.filter (· ≠ p))) = _
    rw [mapM_eq_map fun step _ => hfind step]
    rfl
  have haround : g.around p = ascending PatchId.le ((steps.map find).filter (· ≠ p)) := by
    rw [around, hneighbors]
  obtain ⟨hnodup, hmem⟩ := ascending_patches ((steps.map find).filter (· ≠ p))
  rw [haround]
  refine ⟨hneighbors, hnodup, fun q => (hmem q).trans ?_⟩
  rw [List.mem_filter, List.mem_map, decide_eq_true_eq, Touches, hcells]
  constructor
  · rintro ⟨⟨⟨dx, dy, dz⟩, hstep, rfl⟩, hne⟩
    obtain ⟨hx, hy, hz⟩ := mem_steps.mp hstep
    have hthere := h.cellsOf_patchAt (h.shift_lt _ _) (h.shift_lt _ _) (h.shift_lt _ _)
      (hfind (dx, dy, dz))
    rw [hthere]
    exact ⟨hpatch _, hne.symm, (h.near_iff (h.shift_lt _ _)).mpr ⟨dx, hx, rfl⟩,
      (h.near_iff (h.shift_lt _ _)).mpr ⟨dy, hy, rfl⟩,
      (h.near_iff (h.shift_lt _ _)).mpr ⟨dz, hz, rfl⟩⟩
  · rintro ⟨hq, hne, hx, hy, hz⟩
    obtain ⟨hltx, hlty, hltz⟩ := h.cellsOf_lt hq
    obtain ⟨dx, hdx, hx⟩ := (h.near_iff hltx).mp hx
    obtain ⟨dy, hdy, hy⟩ := (h.near_iff hlty).mp hy
    obtain ⟨dz, hdz, hz⟩ := (h.near_iff hltz).mp hz
    have hthere : there (dx, dy, dz) = .ok q := by
      rw [← g.patchAt_cellsOf q, ← hx, ← hy, ← hz]
    refine ⟨⟨(dx, dy, dz), mem_steps.mpr ⟨hdx, hdy, hdz⟩, ?_⟩, hne.symm⟩
    exact Except.ok.inj ((hfind _).symm.trans hthere)

end Fits

/-! ## Pairs of neighbours -/

theorem mem_touching {pair : PatchId × PatchId} : pair ∈ g.touching ↔
    pair.1 ∈ g.patches ∧ pair.2 ∈ g.patches ∧ pair.1.number < pair.2.number ∧
      g.Touches pair.1 pair.2 := by
  rw [touching, List.mem_filter, List.mem_product, decide_eq_true_eq, and_assoc]

/-- A pair is listed with the smaller patch first, from whichever side it is met. -/
theorem ordered_eq (hne : p ≠ q) :
    ordered p q = (p, q) ∧ p.number < q.number ∨ ordered p q = (q, p) ∧ q.number < p.number := by
  have hnumber : p.number ≠ q.number := fun heq => hne (congrArg PatchId.mk heq)
  rw [ordered, PatchId.le]
  rcases UInt32.lt_or_lt_of_ne hnumber with hlt | hlt
  · rw [if_pos (decide_eq_true (UInt32.le_of_lt hlt))]
    exact .inl ⟨rfl, hlt⟩
  · rw [if_neg (by simpa using hlt)]
    exact .inr ⟨rfl, hlt⟩

namespace Fits

theorem nodup_touching (h : g.Fits) : g.touching.Nodup :=
  (h.nodup.product h.nodup).filter _

/-- The pairs of all patches with their neighbours are the pairs of patches that touch. -/
theorem mem_pairs (h : g.Fits) {pair : PatchId × PatchId} :
    (∃ p ∈ g.patches, ∃ q ∈ g.around p, ordered p q = pair) ↔ pair ∈ g.touching := by
  rw [mem_touching]
  constructor
  · rintro ⟨p, hp, q, hq, rfl⟩
    obtain ⟨hq, htouches⟩ := ((h.mem_around p).2.2 q).mp hq
    rcases ordered_eq htouches.1 with ⟨heq, hlt⟩ | ⟨heq, hlt⟩
    · rw [heq]
      exact ⟨hp, hq, hlt, htouches⟩
    · rw [heq]
      exact ⟨hq, hp, hlt, htouches.symm⟩
  · rintro ⟨hp, hq, hlt, htouches⟩
    refine ⟨pair.1, hp, pair.2, ((h.mem_around _).2.2 _).mpr ⟨hq, htouches⟩, ?_⟩
    rcases ordered_eq htouches.1 with ⟨heq, -⟩ | ⟨-, hgt⟩
    · exact heq
    · exact absurd hlt (UInt32.lt_asymm hgt)

/-- **The pairs of neighbours** that are listed are the pairs of patches that touch, each once. -/
theorem neighborPairs_perm (h : g.Fits) :
    ∃ pairs, g.neighborPairs = .ok pairs ∧ pairs.Perm g.touching := by
  have hpatch : ∀ p ∈ g.patches, (do
      let around ← g.neighbors p
      return around.map (ordered p)) = Except.ok ((g.around p).map (ordered p)) := by
    intro p _
    rw [(h.mem_around p).1]
    rfl
  let all := (g.patches.map fun p => (g.around p).map (ordered p)).flatten
  obtain ⟨hnodup, hmem⟩ := ascending_pairs all
  refine ⟨ascending pairLe all, ?_, ?_⟩
  · rw [neighborPairs, h.patchIds_eq]
    have hpairs := mapM_eq_map hpatch
    dsimp only [bind, Except.bind, pure, Except.pure] at hpairs ⊢
    rw [hpairs]
  · refine (List.perm_ext_iff_of_nodup hnodup h.nodup_touching).mpr fun pair => ?_
    rw [hmem, ← h.mem_pairs]
    simp only [all, List.mem_flatten, List.mem_map, exists_exists_and_eq_and]

/-- With three cells along each axis, or fewer, all patches touch. -/
theorem touches_of_side_le (h : g.Fits) (hsmall : g.side ≤ 3) (hne : p ≠ q) : g.Touches p q :=
  ⟨hne, near_of_side_le h.side hsmall _ _, near_of_side_le h.side hsmall _ _,
    near_of_side_le h.side hsmall _ _⟩

end Fits

/-! ## Tasks -/

theorem map_patches_pairTasks (start : Nat) (pairs : List (PatchId × PatchId)) :
    (pairTasks start pairs).map Task.patches = pairs.map fun pair => [pair.1, pair.2] := by
  have hfst := congrArg (List.map fun pair : PatchId × PatchId => [pair.1, pair.2])
    (List.zipIdx_map_fst 0 pairs)
  rw [List.map_map] at hfst
  rw [pairTasks, List.map_map]
  exact hfst

namespace Fits

/-- A grid whose tasks can be numbered has no more cells than can be numbered. -/
theorem of_tasks (hside : 0 < g.side) (few : g.cells + g.touching.length < UInt32.size) :
    g.Fits :=
  ⟨hside, Nat.lt_of_le_of_lt (Nat.le_add_right _ _) few⟩

/-- **The patches of the tasks** are each patch by itself and each pair that touches. -/
theorem tasks_patches (h : g.Fits) (few : g.cells + g.touching.length < UInt32.size) :
    ∃ specs, g.tasks = .ok specs ∧ (specs.map Task.id).Nodup ∧
      (∀ t ∈ specs, t.patches ≠ [] ∧ t.patches.Nodup ∧ ∀ p ∈ t.patches, p ∈ g.patches) ∧
      (specs.map Task.patches).Perm
        (g.patches.map (fun p => [p]) ++ g.touching.map fun pair => [pair.1, pair.2]) := by
  obtain ⟨pairs, hpairs, hperm⟩ := h.neighborPairs_perm
  have hfew : ∀ pairs', g.neighborPairs = .ok pairs' → g.cells + pairs'.length < UInt32.size := by
    intro pairs' hpairs'
    obtain rfl := Except.ok.inj (hpairs.symm.trans hpairs')
    rwa [hperm.length_eq]
  obtain ⟨specs, hspecs, computes, hgood, -⟩ := h.tasks_ok hfew
  refine ⟨specs, hspecs, computes, hgood, ?_⟩
  have htasks : specs = g.patches.map selfTask ++ pairTasks g.cells pairs :=
    Except.ok.inj (hspecs.symm.trans (h.tasks_eq hpairs (hfew pairs hpairs)))
  have hself : (g.patches.map selfTask).map Task.patches = g.patches.map fun p => [p] := by
    rw [List.map_map]
    rfl
  rw [htasks, List.map_append, hself, map_patches_pairTasks]
  exact (hperm.map _).append_left _

end Fits

end Grid

end PatchDynamics
