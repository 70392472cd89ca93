import Mathlib.Data.List.Basic
import Mathlib.Data.Nat.Choose.Basic
import Mathlib.Logic.Function.Basic
import PatchDynamics.Proofs.Schedule.Worker

/-!
# The pairs that a task evaluates

A task goes through the pairs of its atoms in two nested loops. Which pairs these are depends on its
patches and on how many atoms each of them has, and on nothing else:

* `Slot` — a place in the list of a patch, `pairsOf` — the pairs of slots, in order;
* `Found.interact` — what the evaluation of one pair does;
* `evaluate_eq` — the loops evaluate these pairs, one after the other, and do nothing else;
* `mem_pairsOf_self`, `mem_pairsOf_two`, `nodup_pairsOf`, `length_pairsOf_self`,
  `length_pairsOf_two` — the pairs and their number.
-/

namespace PatchDynamics

/-- A place in the list of a patch. -/
structure Slot where
  /-- the patch -/
  patch : PatchId
  /-- the index in its list -/
  index : Nat
  deriving DecidableEq

/-! ## Pairs -/

/-- The slots of a patch from one index on, so many of them. -/
def slotsFrom (p : PatchId) (first count : Nat) : List Slot :=
  (List.range' first count).map (Slot.mk p)

/-- The pairs within a patch with `n` atoms whose first slot is one of those from an index on. -/
def pairsInside (p : PatchId) (n first count : Nat) : List (Slot × Slot) :=
  (List.range' first count).flatMap fun i =>
    (slotsFrom p (i + 1) (n - (i + 1))).map fun b => (⟨p, i⟩, b)

/-- The pairs of a patch with another one whose first slot is one of those from an index on. -/
def pairsAcross (p q : PatchId) (m first count : Nat) : List (Slot × Slot) :=
  (List.range' first count).flatMap fun i => (slotsFrom q 0 m).map fun b => (⟨p, i⟩, b)

/-- The pairs of slots that a task on some patches evaluates, in order, where each patch has so many
atoms. -/
def pairsOf (size : PatchId → Nat) : List PatchId → List (Slot × Slot)
  | [] => []
  | [p] => pairsInside p (size p) 0 (size p)
  | p :: q :: _ => pairsAcross p q (size q) 0 (size p)

/-! ## What an evaluation does -/

/-- The forces found so far, slot by slot, and the counts. -/
structure Found where
  /-- the force on each slot -/
  force : Slot → Vec3
  /-- the counts -/
  counts : PairCounts

namespace Found

/-- Nothing is found yet. -/
def none : Found := ⟨fun _ => Vec3.zero, ⟨0, 0⟩⟩

variable (law : ForceLaw) (grid : Grid) (place : Slot → Vec3)

/-- Evaluates a pair of slots, with an atom at each place: the force is added to the first one and
subtracted from the second one. -/
def interact (x : Found) (pair : Slot × Slot) : Found :=
  let f := ForceTask.forceBetween law grid (place pair.1) (place pair.2)
  if f.isZero then ⟨x.force, { x.counts with evaluated := x.counts.evaluated + 1 }⟩
  else
    let pushed := Function.update x.force pair.1 (x.force pair.1 + f)
    ⟨Function.update pushed pair.2 (pushed pair.2 - f),
      ⟨x.counts.evaluated + 1, x.counts.interacting + 1⟩⟩

/-- Evaluates pairs of slots, one after the other. -/
def interactAll (x : Found) (pairs : List (Slot × Slot)) : Found :=
  pairs.foldl (interact law grid place) x

variable {law grid place} {p q : PatchId} {n m : Nat} {x : Found} {t : Tally} {a b : Slot}

/-- A pair without a force changes nothing. -/
theorem interact_of_zero (hzero : (ForceTask.forceBetween law grid (place a) (place b)).isZero) :
    x.interact law grid place (a, b) =
      ⟨x.force, ⟨x.counts.evaluated + 1, x.counts.interacting⟩⟩ := by
  rw [interact]
  exact if_pos hzero

/-- A pair with a force changes the forces on its two slots. -/
theorem interact_of_force (hforce : ¬ (ForceTask.forceBetween law grid (place a) (place b)).isZero)
    (hne : a ≠ b) :
    x.interact law grid place (a, b) =
      ⟨fun s =>
        if s = b then x.force s - ForceTask.forceBetween law grid (place a) (place b)
        else if s = a then x.force s + ForceTask.forceBetween law grid (place a) (place b)
        else x.force s,
      ⟨x.counts.evaluated + 1, x.counts.interacting + 1⟩⟩ := by
  rw [interact]
  refine (if_neg hforce).trans ?_
  dsimp only
  rw [Function.update_of_ne hne.symm]
  congr 1
  funext s
  rw [Function.update_apply, Function.update_apply]
  by_cases hsecond : s = b
  · rw [if_pos hsecond, if_pos hsecond, hsecond]
  · rw [if_neg hsecond, if_neg hsecond]
    by_cases hfirst : s = a
    · rw [if_pos hfirst, if_pos hfirst, hfirst]
    · rw [if_neg hfirst, if_neg hfirst]

variable (law grid place) in
/-- **Each evaluation is counted**. -/
theorem evaluated_interactAll (x : Found) (pairs : List (Slot × Slot)) :
    (x.interactAll law grid place pairs).counts.evaluated = x.counts.evaluated + pairs.length := by
  have hone : ∀ (x : Found) (pair : Slot × Slot),
      (x.interact law grid place pair).counts.evaluated = x.counts.evaluated + 1 := by
    intro x pair
    rw [interact]
    dsimp only
    split <;> rfl
  induction pairs generalizing x with
  | nil => rfl
  | cons pair pairs ih =>
    rw [interactAll, List.foldl_cons, ← interactAll, ih, hone, List.length_cons]
    omega

/-! ## The loops -/

/-- A tally of forces on a patch with `n` atoms and on another one with `m` shows what is found. -/
structure Shown (p q : PatchId) (n m : Nat) (x : Found) (t : Tally) : Prop where
  /-- the forces on the first patch -/
  first : ∀ i, t.first[i]? = if i < n then some (x.force ⟨p, i⟩) else .none
  /-- the forces on the second patch -/
  second : ∀ j, t.second[j]? = if j < m then some (x.force ⟨q, j⟩) else .none
  /-- the counts -/
  counts : x.counts = t.counts
  /-- nothing is found on other patches -/
  others : ∀ s, s.patch ≠ p → s.patch ≠ q → x.force s = Vec3.zero

theorem shown_zeros (p q : PatchId) (n m : Nat) : Shown p q n m none (Tally.zeros n m) where
  first := fun _ => Array.getElem?_replicate
  second := fun _ => Array.getElem?_replicate
  counts := rfl
  others := fun _ _ _ => rfl

/-- A list with one entry changed twice. -/
theorem getElem?_modify_modify (forces : Array Vec3) {i j : Nat} (hne : i ≠ j) (f g : Vec3 → Vec3)
    (k : Nat) : ((forces.modify i f).modify j g)[k]? =
      if j = k then forces[k]?.map g else if i = k then forces[k]?.map f else forces[k]? := by
  rw [Array.getElem?_modify, Array.getElem?_modify]
  by_cases hkj : j = k
  · rw [if_pos hkj, if_pos hkj, if_neg fun hki => hne (hki.trans hkj.symm)]
  · rw [if_neg hkj, if_neg hkj]

/-- A pair within the first patch. -/
theorem Shown.within (h : Shown p p n 0 x t) {i j : Nat} (hne : i ≠ j) :
    Shown p p n 0 (x.interact law grid place (⟨p, i⟩, ⟨p, j⟩))
      (t.within i j (ForceTask.forceBetween law grid (place ⟨p, i⟩) (place ⟨p, j⟩))) := by
  obtain ⟨first, second, counts⟩ := t
  obtain ⟨hfirst, hsecond, rfl, hothers⟩ := h
  rw [Tally.within]
  split
  · next hzero =>
    rw [interact_of_zero hzero]
    exact ⟨hfirst, hsecond, rfl, hothers⟩
  · next hforce =>
    rw [interact_of_force hforce (by simpa using hne)]
    refine ⟨fun k => ?_, fun k => ?_, rfl, fun s hp _ => ?_⟩
    · rw [getElem?_modify_modify _ hne]
      simp only [Slot.mk.injEq, true_and, eq_comm (a := k)]
      dsimp only at hfirst
      rw [hfirst]
      split <;> split <;> (try split) <;> rfl
    · rw [hsecond, if_neg (Nat.not_lt_zero k), if_neg (Nat.not_lt_zero k)]
    · have hi : s ≠ ⟨p, i⟩ := fun heq => hp (congrArg Slot.patch heq)
      have hj : s ≠ ⟨p, j⟩ := fun heq => hp (congrArg Slot.patch heq)
      dsimp only
      rw [if_neg hj, if_neg hi, hothers s hp hp]

/-- A pair of the first patch and the second one. -/
theorem Shown.between (h : Shown p q n m x t) (hpatches : p ≠ q) {i j : Nat} :
    Shown p q n m (x.interact law grid place (⟨p, i⟩, ⟨q, j⟩))
      (t.between i j (ForceTask.forceBetween law grid (place ⟨p, i⟩) (place ⟨q, j⟩))) := by
  obtain ⟨first, second, counts⟩ := t
  obtain ⟨hfirst, hsecond, rfl, hothers⟩ := h
  dsimp only at hfirst hsecond
  rw [Tally.between]
  split
  · next hzero =>
    rw [interact_of_zero hzero]
    exact ⟨hfirst, hsecond, rfl, hothers⟩
  · next hforce =>
    rw [interact_of_force hforce fun heq => hpatches (congrArg Slot.patch heq)]
    refine ⟨fun k => ?_, fun k => ?_, rfl, fun s hp hq => ?_⟩
    · rw [Array.getElem?_modify, hfirst]
      simp only [Slot.mk.injEq, hpatches, false_and, if_false, true_and, eq_comm (a := k)]
      split <;> split <;> rfl
    · rw [Array.getElem?_modify, hsecond]
      simp only [Slot.mk.injEq, hpatches.symm, false_and, if_false, true_and, eq_comm (a := k)]
      split <;> split <;> rfl
    · have hi : s ≠ ⟨p, i⟩ := fun heq => hp (congrArg Slot.patch heq)
      have hj : s ≠ ⟨q, j⟩ := fun heq => hq (congrArg Slot.patch heq)
      dsimp only
      rw [if_neg hj, if_neg hi, hothers s hp hq]

variable (law grid place) in
theorem interactAll_append (x : Found) (pairs more : List (Slot × Slot)) :
    x.interactAll law grid place (pairs ++ more) =
      (x.interactAll law grid place pairs).interactAll law grid place more :=
  List.foldl_append

end Found

/-- The position of the atom at a slot. -/
def Slot.position (positions : PatchId → List Vec3) (s : Slot) : Vec3 :=
  (positions s.patch).getD s.index Vec3.zero

section Loops

variable {law : ForceLaw} {grid : Grid} {positions : PatchId → List Vec3} {p q : PatchId}
  {n m : Nat} {x : Found} {t : Tally}

/-- What is left of the list of a patch begins with the atom at the next slot. -/
theorem position_of_drop {i : Nat} {a : Vec3} {rest : List Vec3}
    (hdrop : a :: rest = (positions p).drop i) :
    Slot.position positions ⟨p, i⟩ = a ∧ rest = (positions p).drop (i + 1) := by
  have hget : (positions p)[i]? = some a := by
    rw [← List.head?_drop, ← hdrop]
    rfl
  refine ⟨?_, ?_⟩
  · rw [Slot.position, List.getD_eq_getElem?_getD, hget]
    rfl
  · rw [← List.tail_drop, ← hdrop]
    rfl

theorem slotsFrom_succ (p : PatchId) (first count : Nat) :
    slotsFrom p first (count + 1) = ⟨p, first⟩ :: slotsFrom p (first + 1) count := by
  rw [slotsFrom, List.range'_succ]
  rfl

namespace Found

open ForceTask

/-- The loop over the slots after one slot of a patch. -/
theorem Shown.withRest (h : Shown p p n 0 x t) {i j : Nat} (hij : i < j) {rest : List Vec3}
    (hrest : rest = (positions p).drop j) :
    Shown p p n 0
      (x.interactAll law grid (Slot.position positions)
        ((slotsFrom p j rest.length).map fun b => (⟨p, i⟩, b)))
      (withRest law grid i (Slot.position positions ⟨p, i⟩) j rest t) := by
  induction rest generalizing j x t with
  | nil => exact h
  | cons b rest ih =>
    obtain ⟨rfl, hnext⟩ := position_of_drop hrest
    rw [List.length_cons, slotsFrom_succ]
    exact ih (h.within (Nat.ne_of_lt hij)) (Nat.lt_succ_of_lt hij) hnext

variable (law grid) in
/-- **The loops over the pairs within a patch**. -/
theorem Shown.pairsWithin (hn : n = (positions p).length) (h : Shown p p n 0 x t) {i : Nat}
    {list : List Vec3} (hlist : list = (positions p).drop i) :
    Shown p p n 0
      (x.interactAll law grid (Slot.position positions) (pairsInside p n i list.length))
      (pairsWithin law grid i list t) := by
  induction list generalizing i x t with
  | nil => exact h
  | cons a rest ih =>
    obtain ⟨rfl, hnext⟩ := position_of_drop hlist
    have hlength : n - (i + 1) = rest.length := by rw [hnext, List.length_drop, hn]
    rw [List.length_cons, pairsInside, List.range'_succ, List.flatMap_cons, ← pairsInside,
      interactAll_append, hlength]
    exact ih (h.withRest (Nat.lt_succ_self i) hnext) hnext

/-- The loop over the slots of the other patch. -/
theorem Shown.withOthers (hpatches : p ≠ q) (h : Shown p q n m x t) {i j : Nat}
    {others : List Vec3} (hothers : others = (positions q).drop j) :
    Shown p q n m
      (x.interactAll law grid (Slot.position positions)
        ((slotsFrom q j others.length).map fun b => (⟨p, i⟩, b)))
      (withOthers law grid i (Slot.position positions ⟨p, i⟩) j others t) := by
  induction others generalizing j x t with
  | nil => exact h
  | cons b rest ih =>
    obtain ⟨rfl, hnext⟩ := position_of_drop hothers
    rw [List.length_cons, slotsFrom_succ]
    exact ih (h.between hpatches) hnext

variable (law grid) in
/-- **The loops over the pairs of a patch with another one**. -/
theorem Shown.pairsBetween (hpatches : p ≠ q) (hm : m = (positions q).length)
    (h : Shown p q n m x t) {i : Nat} {list : List Vec3} (hlist : list = (positions p).drop i) :
    Shown p q n m
      (x.interactAll law grid (Slot.position positions) (pairsAcross p q m i list.length))
      (pairsBetween law grid (positions q) i list t) := by
  induction list generalizing i x t with
  | nil => exact h
  | cons a rest ih =>
    obtain ⟨rfl, hnext⟩ := position_of_drop hlist
    rw [List.length_cons, pairsAcross, List.range'_succ, List.flatMap_cons, ← pairsAcross,
      interactAll_append, hm]
    rw [hm] at h ih
    exact ih (h.withOthers hpatches List.drop_zero.symm) hnext

/-- An array whose entries are known. -/
theorem toList_of_getElem? {forces : Array Vec3} {f : Nat → Vec3}
    (h : ∀ i, forces[i]? = if i < n then some (f i) else .none) :
    forces.toList = (List.range n).map f := by
  refine List.ext_getElem? fun i => ?_
  rw [Array.getElem?_toList, h, List.getElem?_map]
  by_cases hi : i < n
  · rw [if_pos hi, List.getElem?_range hi]
    rfl
  · rw [if_neg hi, List.getElem?_eq_none (by simpa using hi)]
    rfl

/-- The force on each slot of a patch, in order. -/
def on (x : Found) (p : PatchId) (n : Nat) : List Vec3 := (List.range n).map fun i => x.force ⟨p, i⟩

end Found

/-- All that a task with these patches finds at given positions. -/
def foundOn (law : ForceLaw) (grid : Grid) (positions : PatchId → List Vec3)
    (patches : List PatchId) : Found :=
  Found.none.interactAll law grid (Slot.position positions)
    (pairsOf (fun p => (positions p).length) patches)

variable (law grid positions) in
/-- **An evaluation** evaluates the pairs of its patches, one after the other, and answers what is
found on each patch. -/
theorem evaluate_eq {patches : List PatchId} (hsome : patches ≠ []) (hnodup : patches.Nodup) :
    ForceTask.evaluate law grid (patches.map positions) =
      .ok (patches.map (fun p =>
          (foundOn law grid positions patches).on p (positions p).length),
        (foundOn law grid positions patches).counts) := by
  match patches with
  | [] => exact absurd rfl hsome
  | [p] =>
    have hshown := Found.Shown.pairsWithin law grid rfl
      (Found.shown_zeros p p (positions p).length 0) List.drop_zero.symm
    rw [List.map_singleton, List.map_singleton, ForceTask.evaluate,
      Found.toList_of_getElem? hshown.first, ← hshown.counts]
    rfl
  | p :: q :: others =>
    obtain ⟨hp, hq⟩ := List.nodup_cons.mp hnodup
    have hne : p ≠ q := fun heq => hp (heq ▸ List.mem_cons_self)
    have hshown := Found.Shown.pairsBetween law grid hne rfl
      (Found.shown_zeros p q (positions p).length (positions q).length) List.drop_zero.symm
    -- nothing is found on further patches
    have hothers : others.map (fun r => List.replicate (positions r).length Vec3.zero) =
        others.map fun r =>
          (foundOn law grid positions (p :: q :: others)).on r (positions r).length := by
      refine List.map_congr_left fun r hr => ?_
      have hrp : r ≠ p := fun heq => hp (List.mem_cons_of_mem _ (heq ▸ hr))
      have hrq : r ≠ q := fun heq => (List.nodup_cons.mp hq).1 (heq ▸ hr)
      have hzero : ∀ i ∈ List.range (positions r).length,
          (foundOn law grid positions (p :: q :: others)).force ⟨r, i⟩ = Vec3.zero :=
        fun i _ => hshown.others ⟨r, i⟩ hrp hrq
      rw [Found.on, List.map_congr_left hzero, List.map_const', List.length_range]
    rw [List.map_cons, List.map_cons, ForceTask.evaluate,
      Found.toList_of_getElem? hshown.first, Found.toList_of_getElem? hshown.second,
      ← hshown.counts, List.map_map, List.map_cons, List.map_cons, ← hothers]
    rfl

end Loops

/-! ## Which pairs -/

section Which

variable {p q : PatchId} {size : PatchId → Nat} {n m first count : Nat} {a b : Slot}

theorem mem_slotsFrom :
    a ∈ slotsFrom p first count ↔ a.patch = p ∧ first ≤ a.index ∧ a.index < first + count := by
  obtain ⟨r, i⟩ := a
  simp only [slotsFrom, List.mem_map, List.mem_range'_1, Slot.mk.injEq]
  constructor
  · rintro ⟨j, hj, rfl, rfl⟩
    exact ⟨rfl, hj⟩
  · rintro ⟨rfl, hi⟩
    exact ⟨i, hi, rfl, rfl⟩

theorem nodup_slotsFrom (p : PatchId) (first count : Nat) : (slotsFrom p first count).Nodup :=
  (List.nodup_range' 1).map fun _ _ heq => congrArg Slot.index heq

/-- The pairs of a task on one patch: the second slot comes after the first one. -/
theorem mem_pairsOf_self :
    (a, b) ∈ pairsOf size [p] ↔
      a.patch = p ∧ b.patch = p ∧ a.index < b.index ∧ b.index < size p := by
  simp only [pairsOf, pairsInside, List.mem_flatMap, List.mem_map, List.mem_range'_1,
    Prod.mk.injEq, mem_slotsFrom]
  constructor
  · rintro ⟨i, hi, b, ⟨hpatch, hlow, hhigh⟩, rfl, rfl⟩
    exact ⟨rfl, hpatch, hlow, by omega⟩
  · rintro ⟨hfirst, hsecond, hlow, hhigh⟩
    obtain ⟨r, i⟩ := a
    obtain rfl : r = p := hfirst
    exact ⟨i, by dsimp only at hlow; omega, b, ⟨hsecond, hlow, by omega⟩, rfl, rfl⟩

/-- The pairs of a task on two patches: all of the first patch with all of the second one. -/
theorem mem_pairsOf_two :
    (a, b) ∈ pairsOf size [p, q] ↔
      a.patch = p ∧ b.patch = q ∧ a.index < size p ∧ b.index < size q := by
  simp only [pairsOf, pairsAcross, List.mem_flatMap, List.mem_map, List.mem_range'_1,
    Prod.mk.injEq, mem_slotsFrom, Nat.zero_le, true_and, Nat.zero_add]
  constructor
  · rintro ⟨i, hi, b, ⟨hpatch, hb⟩, rfl, rfl⟩
    exact ⟨rfl, hpatch, hi, hb⟩
  · rintro ⟨hfirst, hsecond, ha, hb⟩
    obtain ⟨r, i⟩ := a
    obtain rfl : r = p := hfirst
    exact ⟨i, ha, b, ⟨hsecond, hb⟩, rfl, rfl⟩

/-- Pairs with different first slots, and for each of them different second ones, are different. -/
theorem nodup_flatMap_pairs {indices : List Nat} (hindices : indices.Nodup) (p : PatchId)
    {partners : Nat → List Slot} (hpartners : ∀ i, (partners i).Nodup) :
    (indices.flatMap fun i => (partners i).map fun b => ((⟨p, i⟩ : Slot), b)).Nodup := by
  refine List.nodup_flatMap.mpr
    ⟨fun i _ => (hpartners i).map fun _ _ heq => (Prod.mk.inj heq).2, ?_⟩
  refine hindices.imp fun hne => List.disjoint_left.mpr fun pair hfirst hsecond => ?_
  obtain ⟨b, -, rfl⟩ := List.mem_map.mp hfirst
  obtain ⟨c, -, heq⟩ := List.mem_map.mp hsecond
  exact hne (congrArg (fun pair => pair.1.index) heq).symm

/-- **A task evaluates no pair twice**. -/
theorem nodup_pairsOf (size : PatchId → Nat) (patches : List PatchId) :
    (pairsOf size patches).Nodup := by
  match patches with
  | [] => exact List.nodup_nil
  | [_] => exact nodup_flatMap_pairs (List.nodup_range' 1) _ fun _ => nodup_slotsFrom _ _ _
  | _ :: _ :: _ => exact nodup_flatMap_pairs (List.nodup_range' 1) _ fun _ => nodup_slotsFrom _ _ _

theorem length_pairsInside (p : PatchId) (hn : first + count = n) :
    (pairsInside p n first count).length = count.choose 2 := by
  induction count generalizing first with
  | zero => rfl
  | succ count ih =>
    have hrest : n - (first + 1) = count := by omega
    rw [pairsInside, List.range'_succ, List.flatMap_cons, ← pairsInside, List.length_append,
      ih (by omega), List.length_map, slotsFrom, List.length_map, List.length_range', hrest,
      Nat.choose_succ_succ' count 1, Nat.choose_one_right]

/-- **How many pairs** a task on one patch evaluates. -/
theorem length_pairsOf_self (size : PatchId → Nat) (p : PatchId) :
    (pairsOf size [p]).length = (size p).choose 2 :=
  length_pairsInside p (Nat.zero_add _)

/-- **How many pairs** a task on two patches evaluates. -/
theorem length_pairsOf_two (size : PatchId → Nat) (p q : PatchId) :
    (pairsOf size [p, q]).length = size p * size q := by
  rw [pairsOf, pairsAcross, List.length_flatMap]
  simp [slotsFrom]

end Which

end PatchDynamics
