import Mathlib.Algebra.BigOperators.Group.Finset.Piecewise
import Mathlib.Algebra.BigOperators.Group.Finset.Sigma
import Mathlib.Data.Finset.Card
import Mathlib.Data.Finset.Prod
import PatchDynamics.Proofs.Grid.Neighbors

/-!
# The tasks cover the adjacent patches

A cell has three cells near it along each axis, itself included, and fewer only where there are
fewer. So every patch touches the same number of others, and from that the number of pairs follows.
This file counts the pairs, shows them to be in order, and says what the tasks of a grid are:

* `Fits.card_nearCells`, `Fits.card_touched` — how many cells are near along one axis, and how many
  patches a patch touches;
* `Fits.two_mul_length_touching` — how many pairs touch, each of them met from both sides;
* `Precedes`, `pairwise_neighborPairs` — the pairs are listed in strictly ascending order;
* `tasks_exact` — the tasks, one after the other.
-/

namespace PatchDynamics

namespace Grid

open Finset

/-- The cells near a cell along one axis. -/
def nearCells (g : Grid) (c : Nat) : Finset Nat := (range g.side).filter (g.Near c)

/-- The patches that a patch touches. -/
def touched (g : Grid) (p : PatchId) : Finset PatchId := g.patches.toFinset.filter (g.Touches p)

/-- Whether the cells of two patches are near each other along all axes. -/
def NearPatch (g : Grid) (p q : PatchId) : Prop :=
  g.Near (g.cellsOf p).1 (g.cellsOf q).1 ∧ g.Near (g.cellsOf p).2.1 (g.cellsOf q).2.1 ∧
    g.Near (g.cellsOf p).2.2 (g.cellsOf q).2.2

instance (g : Grid) (p q : PatchId) : Decidable (g.NearPatch p q) :=
  inferInstanceAs (Decidable (g.Near (g.cellsOf p).1 (g.cellsOf q).1 ∧
    g.Near (g.cellsOf p).2.1 (g.cellsOf q).2.1 ∧ g.Near (g.cellsOf p).2.2 (g.cellsOf q).2.2))

variable {g : Grid} {p q : PatchId}

theorem Near.refl (c : Nat) : g.Near c c := ⟨0, by simp, by rw [add_zero]⟩

namespace Fits

/-- Different steps lead to different cells, where there are more than two cells along the axis. -/
theorem shift_injOn (h : g.Fits) (hlarge : 3 ≤ g.side) (c : Nat) :
    Set.InjOn (g.shift c) (({-1, 0, 1} : Finset Int) : Set Int) := by
  intro step hstep step' hstep' heq
  have hpos : (0 : Int) < g.side := by exact_mod_cast h.side
  have hsame : (c : Int) + step ≡ c + step' [ZMOD g.side] :=
    ((shift_eq_iff h.side (h.shift_lt c step') step).mp heq).symm.trans
      ((shift_eq_iff h.side (h.shift_lt c step') step').mp rfl)
  have hdvd := (Int.modEq_iff_dvd.mp (Int.ModEq.add_left_cancel' _ hsame))
  simp only [coe_insert, coe_singleton, Set.mem_insert_iff, Set.mem_singleton_iff] at hstep hstep'
  -- two steps are less than the whole way round apart
  have hzero : step' - step = 0 := Int.eq_zero_of_abs_lt_dvd hdvd (by rw [abs_lt]; omega)
  omega

/-- **How many cells are near** along one axis. -/
theorem card_nearCells (h : g.Fits) (c : Nat) : (g.nearCells c).card = min 3 g.side := by
  by_cases hsmall : g.side ≤ 3
  · rw [nearCells, filter_true_of_mem fun c' _ => near_of_side_le h.side hsmall c c', card_range,
      min_eq_right hsmall]
  · have hlarge : 3 ≤ g.side := by omega
    have himage : g.nearCells c = ({-1, 0, 1} : Finset Int).image (g.shift c) := by
      ext c'
      rw [nearCells, mem_filter, mem_range, mem_image]
      constructor
      · rintro ⟨hc', hnear⟩
        obtain ⟨step, hstep, rfl⟩ := (h.near_iff hc').mp hnear
        exact ⟨step, by simpa using hstep, rfl⟩
      · rintro ⟨step, hstep, rfl⟩
        have hlt := h.shift_lt c step
        exact ⟨hlt, (h.near_iff hlt).mpr ⟨step, by simpa using hstep, rfl⟩⟩
    rw [himage, card_image_of_injOn (h.shift_injOn hlarge c), min_eq_left hlarge]
    rfl

/-- The patches whose cells are near those of a patch, itself included. -/
theorem card_nearPatches (h : g.Fits) (p : PatchId) :
    (g.patches.toFinset.filter (g.NearPatch p)).card = min 3 g.side ^ 3 := by
  let cells := g.cellsOf p
  have hcells : (g.nearCells cells.1 ×ˢ g.nearCells cells.2.1 ×ˢ g.nearCells cells.2.2).card =
      min 3 g.side ^ 3 := by
    rw [card_product, card_product, h.card_nearCells, h.card_nearCells, h.card_nearCells, pow_three]
  rw [← hcells]
  refine card_nbij g.cellsOf (fun q hq => ?_) (fun q _ q' _ hsame => ?_) ?_
  · obtain ⟨hq, hx, hy, hz⟩ := mem_filter.mp hq
    obtain ⟨hltx, hlty, hltz⟩ := h.cellsOf_lt (List.mem_toFinset.mp hq)
    rw [mem_coe]
    simp only [mem_product, nearCells, mem_filter, mem_range]
    exact ⟨⟨hltx, hx⟩, ⟨hlty, hy⟩, hltz, hz⟩
  -- a patch is found at its cells, so the cells tell the patches apart
  · have hpatch := g.patchAt_cellsOf q
    rw [hsame, g.patchAt_cellsOf q'] at hpatch
    exact (Except.ok.inj hpatch).symm
  · rintro ⟨x, y, z⟩ hnear
    simp only [coe_product, Set.mem_prod, mem_coe, nearCells, mem_filter, mem_range] at hnear
    obtain ⟨⟨hltx, hx⟩, ⟨hlty, hy⟩, hltz, hz⟩ := hnear
    obtain ⟨q, hq, hmem⟩ := h.patchAt_mem hltx hlty hltz
    have hcellsOf := h.cellsOf_patchAt hltx hlty hltz hq
    refine ⟨q, mem_coe.mpr (mem_filter.mpr ⟨List.mem_toFinset.mpr hmem, ?_⟩), hcellsOf⟩
    rw [NearPatch, hcellsOf]
    exact ⟨hx, hy, hz⟩

/-- **How many patches a patch touches.** -/
theorem card_touched (h : g.Fits) (hp : p ∈ g.patches) :
    (g.touched p).card = min 3 g.side ^ 3 - 1 := by
  have herase : g.touched p = (g.patches.toFinset.filter (g.NearPatch p)).erase p := by
    ext q
    rw [touched, mem_filter, mem_erase, mem_filter, Touches, ne_comm (a := q)]
    exact and_left_comm
  have hself : p ∈ g.patches.toFinset.filter (g.NearPatch p) :=
    mem_filter.mpr ⟨List.mem_toFinset.mpr hp, Near.refl _, Near.refl _, Near.refl _⟩
  rw [herase, card_erase_of_mem hself, h.card_nearPatches]

/-- **How many pairs touch**: each of them is met from both sides. -/
theorem two_mul_length_touching (h : g.Fits) :
    2 * g.touching.length = g.cells * (min 3 g.side ^ 3 - 1) := by
  let patches := g.patches.toFinset
  let both := (patches ×ˢ patches).filter fun pair => g.Touches pair.1 pair.2
  have hlength : g.touching.length =
      (both.filter fun pair => pair.1.number < pair.2.number).card := by
    rw [← List.toFinset_card_of_nodup h.nodup_touching]
    congr 1
    ext pair
    simp only [both, patches, List.mem_toFinset, mem_touching, mem_filter, mem_product]
    tauto
  -- the pairs with the larger patch first are the others, the other way round
  have hswap : (both.filter fun pair => ¬ pair.1.number < pair.2.number).card =
      (both.filter fun pair => pair.1.number < pair.2.number).card := by
    refine card_nbij' Prod.swap Prod.swap (fun pair hpair => ?_) (fun pair hpair => ?_)
      (fun _ _ => Prod.swap_swap _) fun _ _ => Prod.swap_swap _
    · simp only [both, mem_coe, mem_filter, mem_product] at hpair ⊢
      obtain ⟨⟨⟨hp, hq⟩, htouches⟩, hnot⟩ := hpair
      have hne : pair.1.number ≠ pair.2.number := fun heq => htouches.1 (congrArg PatchId.mk heq)
      exact ⟨⟨⟨hq, hp⟩, htouches.symm⟩, (UInt32.lt_or_lt_of_ne hne).resolve_left hnot⟩
    · simp only [both, mem_coe, mem_filter, mem_product] at hpair ⊢
      obtain ⟨⟨⟨hp, hq⟩, htouches⟩, hlt⟩ := hpair
      exact ⟨⟨⟨hq, hp⟩, htouches.symm⟩, UInt32.lt_asymm hlt⟩
  have hdegrees : both.card = g.cells * (min 3 g.side ^ 3 - 1) := by
    have hdegree : ∀ p ∈ patches,
        (∑ q ∈ patches, if g.Touches p q then 1 else 0) = min 3 g.side ^ 3 - 1 := by
      intro p hp
      rw [← card_filter, ← h.card_touched (List.mem_toFinset.mp hp)]
      rfl
    rw [card_filter, sum_product, sum_const_nat hdegree, List.toFinset_card_of_nodup h.nodup,
      length_patches]
  rw [two_mul, ← hdegrees,
    ← card_filter_add_card_filter_not fun pair : PatchId × PatchId => pair.1.number < pair.2.number,
    hswap, hlength]

end Fits

/-! ## In order -/

/-- Whether a pair of patches comes before another one: by the first patch, and then by the
second. -/
def Precedes (a b : PatchId × PatchId) : Prop :=
  a.1.number < b.1.number ∨ a.1 = b.1 ∧ a.2.number < b.2.number

theorem precedes_of_ne {a b : PatchId × PatchId} (hle : pairLe a b) (hne : a ≠ b) :
    Precedes a b := by
  obtain ⟨⟨a⟩, ⟨a'⟩⟩ := a
  obtain ⟨⟨b⟩, ⟨b'⟩⟩ := b
  simp only [pairLe, Precedes, Bool.or_eq_true, Bool.and_eq_true, decide_eq_true_eq, ne_eq,
    UInt32.lt_iff_toNat_lt, UInt32.le_iff_toNat_le, Prod.mk.injEq, PatchId.mk.injEq,
    ← UInt32.toNat_inj] at hle hne ⊢
  omega

/-- **The pairs of neighbours** are listed in ascending order, without repetition. -/
theorem pairwise_neighborPairs {pairs : List (PatchId × PatchId)}
    (hpairs : g.neighborPairs = .ok pairs) : pairs.Pairwise Precedes := by
  obtain ⟨all, rfl⟩ : ∃ all, pairs = ascending pairLe all := by
    rw [neighborPairs] at hpairs
    dsimp only [bind, Except.bind, pure, Except.pure] at hpairs
    split at hpairs
    · cases hpairs
    · split at hpairs
      · cases hpairs
      · exact ⟨_, (Except.ok.inj hpairs).symm⟩
  have hsorted := pairwise_ascending pairLe_trans pairLe_total all
  have hnodup := (ascending_pairs all).1
  exact (hsorted.and hnodup).imp fun hab => precedes_of_ne hab.1 hab.2

/-! ## The tasks -/

namespace Fits

/-- The patches have the numbers from zero on. -/
theorem map_number_patches (h : g.Fits) :
    g.patches.map (fun p => p.number.toNat) = List.range g.cells := by
  rw [patches, List.map_map]
  conv_rhs => rw [← List.map_id (List.range g.cells)]
  exact List.map_congr_left fun i hi => h.toNat_ofNat (List.mem_range.mp hi)

/-- The computes have the numbers from zero on. -/
theorem map_number_tasks {pairs : List (PatchId × PatchId)}
    (few : g.cells + pairs.length < UInt32.size) :
    (g.patches.map selfTask ++ pairTasks g.cells pairs).map (fun t => t.id.number.toNat) =
      List.range (g.cells + pairs.length) := by
  have hids := congrArg (List.map fun c : ComputeId => c.number.toNat) (map_id_tasks g pairs)
  rw [List.map_map, List.map_map] at hids
  refine hids.trans ?_
  conv_rhs => rw [← List.map_id (List.range _)]
  refine List.map_congr_left fun i hi => UInt32.toNat_ofNat_of_lt' ?_
  exact Nat.lt_trans (List.mem_range.mp hi) few

end Fits

/-- **The tasks cover the adjacent patches exactly.** On a grid with cells whose tasks can be
numbered by 32-bit words, the tasks are first one for each patch by itself, in the order of the
patches, its compute with the number of the patch; and then one for each pair of neighbours, the
smaller patch first, in ascending order. Neighbours are the patches whose cells are at most one step
apart along each axis, the axes closing on themselves; the patches have the numbers from zero on,
and so do the computes. -/
theorem tasks_exact (hside : 0 < g.side)
    (few : g.cells + g.cells * (min 3 g.side ^ 3 - 1) / 2 < 2 ^ 32) :
    ∃ pairs : List (PatchId × PatchId),
      g.tasks = .ok ((g.patches.map fun p => ⟨⟨p.number⟩, [p]⟩) ++
        pairs.zipIdx.map fun (pair, i) =>
          ⟨⟨UInt32.ofNat (g.cells + i)⟩, [pair.1, pair.2]⟩) ∧
      g.patches.map (fun p => p.number.toNat) = List.range g.cells ∧
      (∀ p q, (p, q) ∈ pairs ↔
        p ∈ g.patches ∧ q ∈ g.patches ∧ p.number < q.number ∧ g.Touches p q) ∧
      (∀ p ∈ g.patches, ∃ around, g.neighbors p = .ok around ∧
        ∀ q, q ∈ around ↔ q ∈ g.patches ∧ g.Touches p q) ∧
      pairs.Pairwise Precedes ∧
      pairs.length = g.cells * (min 3 g.side ^ 3 - 1) / 2 ∧
      ∀ specs, g.tasks = .ok specs →
        specs.map (fun t => t.id.number.toNat) = List.range specs.length := by
  have h : g.Fits := ⟨hside, Nat.lt_of_le_of_lt (Nat.le_add_right _ _) few⟩
  obtain ⟨pairs, hpairs, hperm⟩ := h.neighborPairs_perm
  have hlength : pairs.length = g.cells * (min 3 g.side ^ 3 - 1) / 2 := by
    have htwo := h.two_mul_length_touching
    rw [← hperm.length_eq] at htwo
    omega
  have hfew : g.cells + pairs.length < UInt32.size := by
    rw [hlength]
    exact few
  have htasks := h.tasks_eq hpairs hfew
  refine ⟨pairs, htasks, h.map_number_patches, fun p q => hperm.mem_iff.trans mem_touching,
    fun p _ => ?_, pairwise_neighborPairs hpairs, hlength, fun specs hspecs => ?_⟩
  · obtain ⟨haround, -, hmem⟩ := h.mem_around p
    exact ⟨g.around p, haround, hmem⟩
  · obtain rfl := Except.ok.inj (htasks.symm.trans hspecs)
    rw [Fits.map_number_tasks hfew, List.length_append, List.length_map, length_patches, pairTasks,
      List.length_map, List.length_zipIdx]

/-- With four cells along each axis there are 64 patches and 832 pairs of neighbours. -/
theorem tasks_exact_four :
    let g := Grid.new 4 1
    0 < g.side ∧ g.cells + g.cells * (min 3 g.side ^ 3 - 1) / 2 < 2 ^ 32 ∧
    ∃ pairs : List (PatchId × PatchId),
      g.tasks = .ok ((g.patches.map fun p => ⟨⟨p.number⟩, [p]⟩) ++
        pairs.zipIdx.map fun (pair, i) => ⟨⟨UInt32.ofNat (64 + i)⟩, [pair.1, pair.2]⟩) ∧
      pairs.length = 832 ∧ (⟨0⟩, ⟨63⟩) ∈ pairs ∧ (⟨0⟩, ⟨2⟩) ∉ pairs := by
  intro g
  have hside : 0 < g.side := by decide
  have few : g.cells + g.cells * (min 3 g.side ^ 3 - 1) / 2 < 2 ^ 32 := by decide
  obtain ⟨pairs, htasks, -, hmem, -, -, hlength, -⟩ := tasks_exact hside few
  refine ⟨hside, few, pairs, htasks, hlength.trans (by decide), ?_, ?_⟩
  · exact (hmem _ _).mpr (by decide +kernel)
  · rw [hmem]
    decide +kernel

end Grid

end PatchDynamics
