import PatchDynamics.Proofs.Grid.Neighborhood

/-!
# Grids whose tasks can be numbered

Patches and tasks have 32-bit numbers, but a grid may have more cells than that, and a patch then
goes without a number, or a task without its patch. This file says which grids have all their tasks:

* `Fits.tasks_ok_iff`, `Fits.few_iff` — where the patches can be numbered, the tasks can be numbered
  up to 674 cells along each axis, and `Fits.tasks_overflow`, what else becomes of them;
* `next_mem_neighbors` — the cell with the next number is a neighbour, however large the grid is;
* `exists_task_beyond` — where there are too many cells for their numbers, a task has a patch that
  is not there, unless there is no patch at all.
-/

namespace PatchDynamics

namespace Grid

variable {g : Grid}

/-! ## What is listed -/

/-- The numbers that are left for the patches, the rest of the count. -/
def numbered (g : Grid) : Nat := g.cells % UInt32.size

/-- A number that fits is what it was. -/
theorem eq_of_checked {n m : Nat} (h : checked n = .ok m) : m = n := by
  rw [checked] at h
  split at h
  · exact (Except.ok.inj h).symm
  · cases h

/-- As many patches are listed as there are numbers left. -/
theorem patchIds_of_ok {ids : List PatchId} (h : g.patchIds = .ok ids) :
    ids = (List.range g.numbered).map fun i => ⟨UInt32.ofNat i⟩ := by
  obtain ⟨count, hcount, h⟩ := exists_ok_of_bind h
  obtain rfl : count = g.cells := eq_of_checked hcount
  exact (Except.ok.inj h).symm

/-- The tasks that are listed are one for each patch and one for each pair. -/
theorem tasks_of_ok {tasks : List Task} (h : g.tasks = .ok tasks) :
    ∃ ids pairs, g.patchIds = .ok ids ∧ g.neighborPairs = .ok pairs ∧
      tasks = ids.map selfTask ++ pairTasks g.numbered pairs := by
  obtain ⟨ids, hids, h⟩ := exists_ok_of_bind h
  obtain ⟨pairs, hpairs, h⟩ := exists_ok_of_bind h
  obtain ⟨count, hcount, h⟩ := exists_ok_of_bind h
  obtain rfl : count = g.cells := eq_of_checked hcount
  refine ⟨ids, pairs, hids, hpairs, ?_⟩
  dsimp only at h
  split at h
  · exact (Except.ok.inj h).symm
  · cases h

/-! ## Grids whose patches can be numbered -/

namespace Fits

/-- Tasks that cannot be numbered are a fault. -/
theorem tasks_overflow (h : g.Fits) (many : UInt32.size ≤ g.cells + g.touching.length) :
    g.tasks = .error (.fault .overflow) := by
  obtain ⟨pairs, hpairs, hperm⟩ := h.neighborPairs_perm
  rw [← hperm.length_eq] at many
  have hstart : g.cells % UInt32.size = g.cells := Nat.mod_eq_of_lt h.cells
  rw [tasks, h.patchIds_eq, hpairs, h.patchCount_eq]
  dsimp only [bind, Except.bind]
  rw [hstart, if_neg ?_]
  · rfl
  · rw [Bool.or_eq_true, List.isEmpty_iff, decide_eq_true_iff]
    rintro (rfl | few)
    · exact absurd h.cells (Nat.not_lt_of_le many)
    · exact absurd few (Nat.not_lt_of_le many)

/-- **The tasks are listed** exactly if they can be numbered. -/
theorem tasks_ok_iff (h : g.Fits) :
    (∃ tasks, g.tasks = .ok tasks) ↔ g.cells + g.touching.length < UInt32.size := by
  constructor
  · rintro ⟨tasks, htasks⟩
    by_contra many
    cases (h.tasks_overflow (Nat.not_lt.mp many)).symm.trans htasks
  · intro few
    obtain ⟨tasks, htasks, -⟩ := h.tasks_patches few
    exact ⟨tasks, htasks⟩

/-- **They can be numbered** up to 674 cells along each axis: from three cells on, thirteen pairs
come with each patch. -/
theorem few_iff (h : g.Fits) :
    g.cells + g.touching.length < UInt32.size ↔ g.side ≤ 674 := by
  have htwo := h.two_mul_length_touching
  have hcells := g.cells_eq_pow
  have hsize : UInt32.size = 4294967296 := rfl
  rcases Nat.lt_or_ge g.side 3 with hsmall | hlarge
  · have hfew : g.cells + g.touching.length < UInt32.size := by
      rw [hcells] at htwo ⊢
      have hpow : g.side ^ 3 ≤ 2 ^ 3 := Nat.pow_le_pow_left (Nat.le_of_lt_succ hsmall) 3
      have hnear : min 3 g.side ^ 3 - 1 ≤ 26 :=
        Nat.sub_le_sub_right (Nat.pow_le_pow_left (Nat.min_le_left 3 g.side) 3) 1
      have hboth : g.side ^ 3 * (min 3 g.side ^ 3 - 1) ≤ 8 * 26 := Nat.mul_le_mul hpow hnear
      omega
    exact iff_of_true hfew (by omega)
  · rw [min_eq_left hlarge] at htwo
    constructor
    · intro few
      by_contra hmore
      have hpow : 675 ^ 3 ≤ g.side ^ 3 := Nat.pow_le_pow_left (by omega) 3
      omega
    · intro hside
      have hpow : g.side ^ 3 ≤ 674 ^ 3 := Nat.pow_le_pow_left hside 3
      omega

end Fits

/-! ## Grids of any size -/

/-- Along each axis, the next number leads to the same cell or to the next one. -/
theorem near_succ (g : Grid) (n k : Nat) : g.Near (n / k % g.side) ((n + 1) / k % g.side) := by
  let step : Int := if k ∣ n + 1 then 1 else 0
  have hstep : step ∈ ([-1, 0, 1] : List Int) := by
    dsimp only [step]
    split <;> simp
  have hnext : (((n + 1) / k : Nat) : Int) = (n / k : Nat) + step := by
    rw [Nat.succ_div, Nat.cast_add, Nat.cast_ite, Nat.cast_one, Nat.cast_zero]
  refine ⟨step, hstep, ?_⟩
  rw [Int.natCast_mod, Int.natCast_mod, hnext]
  exact (Int.mod_modEq _ _).trans ((Int.mod_modEq _ _).symm.add_right step)

/-- A step leads from each cell to the one with the next number. -/
theorem exists_step_next {n : Nat} (hlt : n + 1 < g.cells) (hword : n + 1 < UInt32.size) :
    ∃ step ∈ steps, g.patchAt (g.shift (n % g.side) step.1) (g.shift (n / g.side % g.side) step.2.1)
      (g.shift (n / (g.side * g.side)) step.2.2) = .ok ⟨UInt32.ofNat (n + 1)⟩ := by
  have hside : 0 < g.side := by
    refine Nat.pos_of_ne_zero fun hnone => ?_
    rw [cells, hnone] at hlt
    exact absurd hlt (Nat.not_lt_zero _)
  have hlayer : n / (g.side * g.side) < g.side := Nat.div_lt_of_lt_mul (Nat.lt_of_succ_lt hlt)
  have hlayer' : (n + 1) / (g.side * g.side) < g.side := Nat.div_lt_of_lt_mul hlt
  obtain ⟨dx, hdx, hx⟩ := g.near_succ n 1
  obtain ⟨dy, hdy, hy⟩ := g.near_succ n g.side
  obtain ⟨dz, hdz, hz⟩ := g.near_succ n (g.side * g.side)
  rw [Nat.div_one, Nat.div_one] at hx
  rw [Nat.mod_eq_of_lt hlayer, Nat.mod_eq_of_lt hlayer'] at hz
  refine ⟨(dx, dy, dz), mem_steps.mpr ⟨hdx, hdy, hdz⟩, ?_⟩
  dsimp only
  rw [(shift_eq_iff hside (Nat.mod_lt _ hside) dx).mpr hx,
    (shift_eq_iff hside (Nat.mod_lt _ hside) dy).mpr hy, (shift_eq_iff hside hlayer' dz).mpr hz]
  have hcells := g.patchAt_cellsOf ⟨UInt32.ofNat (n + 1)⟩
  rwa [cellsOf, UInt32.toNat_ofNat_of_lt' hword] at hcells

/-- **The cell with the next number** is a neighbour of a cell. -/
theorem next_mem_neighbors {n : Nat} (hlt : n + 1 < g.cells) (hword : n + 1 < UInt32.size)
    {around : List PatchId} (haround : g.neighbors ⟨UInt32.ofNat n⟩ = .ok around) :
    ⟨UInt32.ofNat (n + 1)⟩ ∈ around := by
  have hword' : n < UInt32.size := Nat.lt_of_succ_lt hword
  obtain ⟨step, hstep, hthere⟩ := exists_step_next hlt hword
  -- the neighbours are what all steps lead to
  obtain ⟨⟨x, y, z⟩, hcoordinates, haround⟩ := exists_ok_of_bind haround
  obtain ⟨layer, hlayer, hcoordinates⟩ := exists_ok_of_bind hcoordinates
  obtain rfl := eq_of_checked hlayer
  cases hcoordinates
  obtain ⟨found, hfound, haround⟩ := exists_ok_of_bind haround
  cases haround
  obtain ⟨q, hmem, hq⟩ := exists_of_mapM hfound hstep
  dsimp only at hq
  rw [UInt32.toNat_ofNat_of_lt' hword'] at hq
  obtain rfl := Except.ok.inj (hthere.symm.trans hq)
  refine ((ascending_patches _).2 _).mpr (List.mem_filter.mpr ⟨hmem, decide_eq_true ?_⟩)
  intro hsame
  have hnumber := congrArg (fun p : PatchId => p.number.toNat) hsame
  dsimp only at hnumber
  rw [UInt32.toNat_ofNat_of_lt' hword, UInt32.toNat_ofNat_of_lt' hword'] at hnumber
  exact absurd hnumber (Nat.ne_of_gt (Nat.lt_succ_self n))

/-! ## Grids with too many cells -/

/-- The patch that would come after the last one. -/
def beyond (g : Grid) : PatchId := ⟨UInt32.ofNat g.numbered⟩

/-- The patch that would come after the last one is not listed. -/
theorem beyond_not_mem {ids : List PatchId} (h : g.patchIds = .ok ids) : g.beyond ∉ ids := by
  rw [patchIds_of_ok h, List.mem_map]
  rintro ⟨i, hi, hsame⟩
  have hlt : g.numbered < UInt32.size := Nat.mod_lt _ (by decide)
  have hword := congrArg (fun p : PatchId => p.number.toNat) hsame
  dsimp only [beyond] at hword
  have hi := List.mem_range.mp hi
  rw [UInt32.toNat_ofNat_of_lt' (Nat.lt_trans hi hlt), UInt32.toNat_ofNat_of_lt' hlt] at hword
  exact absurd hword (Nat.ne_of_lt hi)

/-- The last patch that is listed has the one after it as a neighbour. -/
theorem exists_pair_beyond (hmany : UInt32.size ≤ g.cells) (hsome : g.numbered ≠ 0)
    {pairs : List (PatchId × PatchId)} (hpairs : g.neighborPairs = .ok pairs) :
    ∃ pair ∈ pairs, g.beyond ∈ [pair.1, pair.2] := by
  obtain ⟨n, hn⟩ := Nat.exists_eq_succ_of_ne_zero hsome
  have hlt : g.numbered < UInt32.size := Nat.mod_lt _ (by decide)
  have hword : n + 1 < UInt32.size := Nat.lt_of_le_of_lt (Nat.le_of_eq hn.symm) hlt
  let p : PatchId := ⟨UInt32.ofNat n⟩
  obtain ⟨ids, hids, hpairs⟩ := exists_ok_of_bind hpairs
  obtain ⟨lists, hlists, hpairs⟩ := exists_ok_of_bind hpairs
  cases hpairs
  have hp : p ∈ ids := by
    rw [patchIds_of_ok hids, hn]
    exact List.mem_map.mpr ⟨n, List.mem_range.mpr (Nat.lt_succ_self n), rfl⟩
  obtain ⟨list, hlist, hfound⟩ := exists_of_mapM hlists hp
  obtain ⟨around, haround, hfound⟩ := exists_ok_of_bind hfound
  cases hfound
  have hnext := next_mem_neighbors (Nat.lt_of_lt_of_le hword hmany) hword haround
  have hbeyond : g.beyond = ⟨UInt32.ofNat (n + 1)⟩ := by rw [beyond, hn]
  rw [← hbeyond] at hnext
  refine ⟨ordered p g.beyond, ((ascending_pairs _).2 _).mpr ?_, ?_⟩
  · exact List.mem_flatten.mpr ⟨_, hlist, List.mem_map_of_mem hnext⟩
  · rw [ordered]
    split <;> simp

/-- **Too many cells**: a task has a patch that is not there. -/
theorem exists_task_beyond (hmany : UInt32.size ≤ g.cells) (hsome : g.numbered ≠ 0)
    {tasks : List Task} (htasks : g.tasks = .ok tasks) :
    ∃ t ∈ tasks, g.beyond ∈ t.patches := by
  obtain ⟨ids, pairs, -, hpairs, rfl⟩ := tasks_of_ok htasks
  obtain ⟨pair, hpair, hbeyond⟩ := exists_pair_beyond hmany hsome hpairs
  have hmem : [pair.1, pair.2] ∈ (pairTasks g.numbered pairs).map Task.patches := by
    rw [map_patches_pairTasks]
    exact List.mem_map_of_mem hpair
  obtain ⟨t, ht, hpatches⟩ := List.mem_map.mp hmem
  refine ⟨t, List.mem_append_right _ ht, ?_⟩
  rw [hpatches]
  exact hbeyond

/-- No patch at all: nothing is left of the count. -/
theorem tasks_of_none (hnone : g.numbered = 0) (hword : g.cells < wordBound) :
    g.patchIds = .ok [] ∧ g.tasks = .ok [] := by
  have hcount : g.patchCount = .ok g.cells := if_pos hword
  have hids : g.patchIds = .ok [] := by
    have hleft : g.cells % UInt32.size = 0 := hnone
    rw [patchIds, hcount]
    change Except.ok _ = _
    rw [hleft]
    rfl
  have hpairs : g.neighborPairs = .ok [] := by
    have hempty : ascending pairLe [] = [] := congrArg List.eraseReps List.mergeSort_nil
    rw [neighborPairs, hids]
    exact congrArg Except.ok hempty
  refine ⟨hids, ?_⟩
  rw [tasks, hids, hpairs, hcount]
  rfl

end Grid

end PatchDynamics
