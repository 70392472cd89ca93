import Mathlib.Data.List.Nodup
import Mathlib.Data.Nat.Basic
import PatchDynamics.Grid
import PatchDynamics.Proofs.Lists

/-!
# The cells of a grid

A grid whose cells are numbered by 32-bit words has a patch for every position, neighbours for every
patch and a task for every patch and every pair of neighbours:

* `Fits` — the grids in question, `Grid.patches` — the patches of one;
* `Fits.patchOf_mem` — every position is in a patch, wherever it is and even if it is not a number,
  which is its `home`;
* `Fits.neighborPairs_ok` — the pairs of neighbours are pairs of different patches;
* `Fits.tasks_ok` — the tasks are different computes, and every patch has one.
-/

namespace PatchDynamics

namespace Grid

/-! ## Ascending lists -/

theorem mem_of_mem_ascending {α : Type} [BEq α] {le : α → α → Bool} {l : List α} {a : α}
    (h : a ∈ ascending le l) : a ∈ l :=
  List.mem_mergeSort.mp ((eraseReps_sublist _).subset h)

theorem length_ascending_le {α : Type} [BEq α] (le : α → α → Bool) (l : List α) :
    (ascending le l).length ≤ l.length := by
  have hlength := (eraseReps_sublist (l.mergeSort le)).length_le
  rwa [List.length_mergeSort] at hlength

/-! ## Patches -/

/-- The number of cells. -/
def cells (g : Grid) : Nat := g.side * g.side * g.side

/-- A grid that has cells, as many as 32-bit words can number. -/
structure Fits (g : Grid) : Prop where
  /-- there are cells -/
  side : 0 < g.side
  /-- they are numbered by 32-bit words -/
  cells : g.cells < UInt32.size

/-- The patches of a grid, one for each cell. -/
def patches (g : Grid) : List PatchId := (List.range g.cells).map fun i => ⟨UInt32.ofNat i⟩

/-- The patch that holds a position; the first one, should none be found. -/
def home (g : Grid) (v : Vec3) : PatchId :=
  match g.patchOf v with
  | .ok p => p
  | .error _ => ⟨0⟩

variable {g : Grid} {p : PatchId}

@[simp] theorem length_patches (g : Grid) : g.patches.length = g.cells := by
  rw [patches, List.length_map, List.length_range]

theorem checked_of_lt {n : Nat} (h : n < UInt32.size) : checked n = .ok n :=
  if_pos (Nat.lt_trans h (by decide))

namespace Fits

theorem nodup (h : g.Fits) : g.patches.Nodup :=
  nodup_map_ofNat (fun _ _ hsame => congrArg PatchId.number hsame) (Nat.le_of_lt h.cells)

theorem toNat_ofNat (h : g.Fits) {n : Nat} (hn : n < g.cells) : (UInt32.ofNat n).toNat = n :=
  UInt32.toNat_ofNat_of_lt' (Nat.lt_trans hn h.cells)

/-- A patch is known by the number of its cell. -/
theorem number_eq_iff (h : g.Fits) {n : Nat} (hn : n < g.cells) :
    p.number.toNat = n ↔ p = ⟨UInt32.ofNat n⟩ := by
  obtain ⟨number⟩ := p
  rw [PatchId.mk.injEq, ← UInt32.toNat_inj, h.toNat_ofNat hn]

theorem mem_patches (h : g.Fits) : p ∈ g.patches ↔ p.number.toNat < g.cells := by
  rw [patches, List.mem_map]
  constructor
  · rintro ⟨n, hn, rfl⟩
    rw [h.toNat_ofNat (List.mem_range.mp hn)]
    exact List.mem_range.mp hn
  · intro hp
    exact ⟨p.number.toNat, List.mem_range.mpr hp, by rw [UInt32.ofNat_toNat]⟩

/-- There are too few cells for the reserved number. -/
theorem reserved_not_mem (h : g.Fits) : PatchId.reserved ∉ g.patches := by
  intro hmem
  exact absurd (Nat.lt_of_le_of_lt (h.mem_patches.mp hmem) h.cells) (by decide)

theorem patchCount_eq (h : g.Fits) : g.patchCount = .ok g.cells := checked_of_lt h.cells

theorem patchIds_eq (h : g.Fits) : g.patchIds = .ok g.patches := by
  have hcells : g.cells % UInt32.size = g.cells := Nat.mod_eq_of_lt h.cells
  rw [patchIds, h.patchCount_eq]
  change Except.ok _ = _
  rw [hcells, patches]

/-- Three cell numbers make the number of a cell. -/
theorem index_lt {x y z : Nat} (hx : x < g.side) (hy : y < g.side) (hz : z < g.side) :
    x + g.side * (y + g.side * z) < g.cells := by
  have hlayer : y + g.side * z < g.side * g.side := by
    calc y + g.side * z < g.side * (z + 1) := by rw [Nat.mul_succ]; omega
      _ ≤ g.side * g.side := Nat.mul_le_mul_left _ hz
  calc x + g.side * (y + g.side * z) < g.side * (y + g.side * z + 1) := by
        rw [Nat.mul_succ]; omega
    _ ≤ g.side * (g.side * g.side) := Nat.mul_le_mul_left _ hlayer
    _ = g.cells := (Nat.mul_assoc ..).symm

theorem patchAt_mem (h : g.Fits) {x y z : Nat} (hx : x < g.side) (hy : y < g.side)
    (hz : z < g.side) : ∃ p, g.patchAt x y z = .ok p ∧ p ∈ g.patches := by
  have hlt := index_lt hx hy hz
  refine ⟨⟨UInt32.ofNat (x + g.side * (y + g.side * z))⟩, ?_, ?_⟩
  · rw [patchAt, checked_of_lt (Nat.lt_trans hlt h.cells)]
    rfl
  · rw [h.mem_patches, h.toNat_ofNat hlt]
    exact hlt

theorem cell_lt (h : g.Fits) (x : Float) : g.cell x < g.side := by
  have hle : g.cell x ≤ g.side - 1 := Nat.min_le_right _ _
  have hside := h.side
  omega

/-- **Every position is in a patch.** -/
theorem patchOf_mem (h : g.Fits) (v : Vec3) : ∃ p, g.patchOf v = .ok p ∧ p ∈ g.patches :=
  h.patchAt_mem (h.cell_lt _) (h.cell_lt _) (h.cell_lt _)

theorem patchOf_home (h : g.Fits) (v : Vec3) : g.patchOf v = .ok (g.home v) := by
  obtain ⟨p, hp, -⟩ := h.patchOf_mem v
  rw [home, hp]

theorem home_mem (h : g.Fits) (v : Vec3) : g.home v ∈ g.patches := by
  obtain ⟨p, hp, hmem⟩ := h.patchOf_mem v
  rw [home, hp]
  exact hmem

/-! ## Neighbours -/

theorem shift_lt (h : g.Fits) (c : Nat) (step : Int) : g.shift c step < g.side := by
  have hside := h.side
  rw [shift, Int.toNat_lt' hside]
  exact Int.emod_lt_of_pos _ (by exact_mod_cast hside)

/-- **The neighbours of a patch** are other patches, no more than there are steps around a cell. -/
theorem neighbors_ok (h : g.Fits) (p : PatchId) :
    ∃ around, g.neighbors p = .ok around ∧ around.length ≤ 27 ∧
      ∀ q ∈ around, q ∈ g.patches ∧ q ≠ p := by
  have hlayer : g.side * g.side < UInt32.size := by
    have hle := Nat.le_mul_of_pos_right (g.side * g.side) h.side
    exact Nat.lt_of_le_of_lt hle h.cells
  -- the patch at a step
  let there := fun step : Int × Int × Int =>
    g.patchAt (g.shift (p.number.toNat % g.side) step.1)
      (g.shift (p.number.toNat / g.side % g.side) step.2.1)
      (g.shift (p.number.toNat / (g.side * g.side)) step.2.2)
  have hneighbors : g.neighbors p = (do
      let around ← steps.mapM there
      return ascending PatchId.le (around.filter (· ≠ p))) := by
    rw [neighbors, coordinates, checked_of_lt hlayer]
    rfl
  obtain ⟨around, haround, hlength, hall⟩ := mapM_ok (l := steps) (f := there)
    fun _ _ => h.patchAt_mem (h.shift_lt _ _) (h.shift_lt _ _) (h.shift_lt _ _)
  refine ⟨ascending PatchId.le (around.filter (· ≠ p)), ?_, ?_, ?_⟩
  · rw [hneighbors, haround]
    rfl
  · have hfilter := Nat.le_trans (length_ascending_le PatchId.le (around.filter (· ≠ p)))
      (List.length_filter_le _ _)
    rw [hlength] at hfilter
    exact hfilter
  · intro q hq
    obtain ⟨hmem, hne⟩ := List.mem_filter.mp (mem_of_mem_ascending hq)
    obtain ⟨step, -, hpatch⟩ := hall q hmem
    exact ⟨hpatch, of_decide_eq_true hne⟩

/-- **The pairs of neighbours** are pairs of different patches. -/
theorem neighborPairs_ok (h : g.Fits) :
    ∃ pairs, g.neighborPairs = .ok pairs ∧ pairs.length ≤ g.cells * 27 ∧
      ∀ pair ∈ pairs, pair.1 ∈ g.patches ∧ pair.2 ∈ g.patches ∧ pair.1 ≠ pair.2 := by
  have hpatch : ∀ p ∈ g.patches, ∃ pairs, (do
        let around ← g.neighbors p
        return around.map (ordered p)) = Except.ok pairs ∧ pairs.length ≤ 27 ∧
      ∀ pair ∈ pairs, pair.1 ∈ g.patches ∧ pair.2 ∈ g.patches ∧ pair.1 ≠ pair.2 := by
    intro p hp
    obtain ⟨around, haround, hfew, hothers⟩ := h.neighbors_ok p
    refine ⟨around.map (ordered p), by rw [haround]; rfl, by rwa [List.length_map], ?_⟩
    intro pair hpair
    obtain ⟨q, hq, rfl⟩ := List.mem_map.mp hpair
    obtain ⟨hmem, hne⟩ := hothers q hq
    rw [ordered]
    split
    · exact ⟨hp, hmem, hne.symm⟩
    · exact ⟨hmem, hp, hne⟩
  obtain ⟨lists, hlists, hlength, hall⟩ := mapM_ok hpatch
  refine ⟨ascending pairLe lists.flatten, ?_, ?_, ?_⟩
  · rw [neighborPairs, h.patchIds_eq]
    dsimp only [bind, Except.bind, pure, Except.pure] at hlists ⊢
    rw [hlists]
  · refine Nat.le_trans (length_ascending_le _ _) ?_
    rw [length_patches] at hlength
    rw [← hlength]
    exact length_flatten_le fun pairs hpairs => by
      obtain ⟨p, -, hfew, -⟩ := hall pairs hpairs
      exact hfew
  · intro pair hpair
    obtain ⟨pairs, hpairs, hmem⟩ := List.mem_flatten.mp (mem_of_mem_ascending hpair)
    obtain ⟨p, -, -, hgood⟩ := hall pairs hpairs
    exact hgood pair hmem

/-! ## Tasks -/

theorem map_id_pairTasks (start : Nat) (pairs : List (PatchId × PatchId)) :
    (pairTasks start pairs).map Task.id =
      (List.range pairs.length).map fun i => ⟨UInt32.ofNat (start + i)⟩ := by
  rw [pairTasks, List.range_eq_range', ← List.zipIdx_map_snd, List.map_map, List.map_map]
  rfl

/-- The computes of the tasks are numbered one after the other. -/
theorem map_id_tasks (g : Grid) (pairs : List (PatchId × PatchId)) :
    (g.patches.map selfTask ++ pairTasks g.cells pairs).map Task.id =
      (List.range (g.cells + pairs.length)).map fun i => ⟨UInt32.ofNat i⟩ := by
  have hself : (g.patches.map selfTask).map Task.id =
      (List.range g.cells).map fun i => ⟨UInt32.ofNat i⟩ := by
    rw [patches, List.map_map, List.map_map]
    rfl
  rw [List.map_append, hself, map_id_pairTasks, List.range_add, List.map_append, List.map_map]
  rfl

/-- The tasks that are listed, if there are not too many to be numbered. -/
theorem tasks_eq (h : g.Fits) {pairs : List (PatchId × PatchId)}
    (hpairs : g.neighborPairs = .ok pairs) (few : g.cells + pairs.length < UInt32.size) :
    g.tasks = .ok (g.patches.map selfTask ++ pairTasks g.cells pairs) := by
  have hstart : g.cells % UInt32.size = g.cells := Nat.mod_eq_of_lt h.cells
  rw [tasks, h.patchIds_eq, hpairs, h.patchCount_eq]
  dsimp only [bind, Except.bind, pure, Except.pure]
  rw [hstart, if_pos (by simpa using .inr few)]

/-- **The tasks** are different computes, each works on different patches, and each patch has a task
of its own. -/
theorem tasks_ok (h : g.Fits)
    (few : ∀ pairs, g.neighborPairs = .ok pairs → g.cells + pairs.length < UInt32.size) :
    ∃ tasks, g.tasks = .ok tasks ∧ (tasks.map Task.id).Nodup ∧
      (∀ t ∈ tasks, t.patches ≠ [] ∧ t.patches.Nodup ∧ ∀ p ∈ t.patches, p ∈ g.patches) ∧
      ∀ p ∈ g.patches, selfTask p ∈ tasks := by
  obtain ⟨pairs, hpairs, -, hdifferent⟩ := h.neighborPairs_ok
  have hlt := few pairs hpairs
  refine ⟨g.patches.map selfTask ++ pairTasks g.cells pairs, h.tasks_eq hpairs hlt, ?_, ?_, ?_⟩
  · rw [map_id_tasks]
    exact nodup_map_ofNat (fun _ _ hsame => congrArg ComputeId.number hsame) (Nat.le_of_lt hlt)
  · intro t ht
    rcases List.mem_append.mp ht with ht | ht
    · obtain ⟨p, hp, rfl⟩ := List.mem_map.mp ht
      refine ⟨List.cons_ne_nil _ _, List.nodup_singleton p, ?_⟩
      rw [selfTask, List.forall_mem_singleton]
      exact hp
    · obtain ⟨⟨pair, i⟩, hpair, rfl⟩ := List.mem_map.mp ht
      obtain ⟨hfirst, hsecond, hne⟩ := hdifferent pair (List.fst_mem_of_mem_zipIdx hpair)
      refine ⟨List.cons_ne_nil _ _, by simpa using hne, ?_⟩
      rw [List.forall_mem_cons, List.forall_mem_singleton]
      exact ⟨hfirst, hsecond⟩
  · exact fun p hp => List.mem_append_left _ (List.mem_map_of_mem hp)

end Fits

end Grid

end PatchDynamics
