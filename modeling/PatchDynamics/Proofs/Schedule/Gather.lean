import Mathlib.Data.List.ProdSigma
import PatchDynamics.Proofs.Schedule.Pairs

/-!
# What each atom gathers

The loops of a task scatter the force of each pair over two atoms. This file turns them around:
which forces an atom gets, in which order, and which of them are added and which subtracted. The
arithmetic is left as it is, and no sum is rearranged:

* `ForceTask.forceWithin`, `ForceTask.forceOnFirst`, `ForceTask.forceOnSecond` — the force on one
  atom by reference, partner after partner;
* `filter_pairsInside`, `filter_pairsAcross_first`, `filter_pairsAcross_second` — the pairs that a
  slot is in, in the order in which the loops come to them;
* `Found.force_interactAll` — what is found on a slot depends on these pairs only;
* `ForceTask.evaluate_self`, `ForceTask.evaluate_pair` — an evaluation is the reference.
-/

namespace PatchDynamics

namespace Vec3

/-- A sum with a force added to it, unless the force is zero. -/
def push (sum f : Vec3) : Vec3 := if f.isZero then sum else sum + f

/-- A sum with a force subtracted from it, unless the force is zero. -/
def pull (sum f : Vec3) : Vec3 := if f.isZero then sum else sum - f

end Vec3

/-! ## By reference -/

namespace ForceTask

variable (law : ForceLaw) (grid : Grid)

/-- The force on the atom at an index of a list from the others in the list, in the order of the
list: it is added for the atoms after it and subtracted for those before it. -/
def forceWithin (list : List Vec3) (k : Nat) : Vec3 :=
  let place (i : Nat) : Vec3 := list.getD i Vec3.zero
  ((List.range list.length).filter (· ≠ k)).foldl (fun sum j =>
    if k < j then sum.push (forceBetween law grid (place k) (place j))
    else sum.pull (forceBetween law grid (place j) (place k))) Vec3.zero

/-- The force on an atom of a first list from all atoms of a second one, in order. -/
def forceOnFirst (second : List Vec3) (a : Vec3) : Vec3 :=
  second.foldl (fun sum b => sum.push (forceBetween law grid a b)) Vec3.zero

/-- The force on an atom of a second list from all atoms of a first one, in order. -/
def forceOnSecond (first : List Vec3) (b : Vec3) : Vec3 :=
  first.foldl (fun sum a => sum.pull (forceBetween law grid a b)) Vec3.zero

/-- The number of pairs within a list with a force other than zero. -/
def interactingWithin (list : List Vec3) : Nat :=
  let place (i : Nat) : Vec3 := list.getD i Vec3.zero
  ((List.range list.length ×ˢ List.range list.length).filter fun pair => pair.1 < pair.2).countP
    fun (i, j) => !(forceBetween law grid (place i) (place j)).isZero

/-- The number of pairs between two lists with a force other than zero. -/
def interactingBetween (first second : List Vec3) : Nat :=
  (first ×ˢ second).countP fun (a, b) => !(forceBetween law grid a b).isZero

end ForceTask

/-! ## The pairs that a slot is in -/

/-- Whether a slot is one of a pair. -/
def touches (s : Slot) (pair : Slot × Slot) : Bool := pair.1 = s ∨ pair.2 = s

/-- The pairs of a slot with some others. -/
def row (a : Slot) (partners : List Slot) : List (Slot × Slot) := partners.map fun b => (a, b)

section Touching

variable {a s : Slot} {partners : List Slot} {p q : PatchId} {n m k : Nat}

/-- A slot is in all pairs of its own row. -/
theorem filter_row_first (partners : List Slot) :
    (row s partners).filter (touches s) = row s partners := by
  refine List.filter_eq_self.mpr fun pair hpair => ?_
  obtain ⟨b, -, rfl⟩ := List.mem_map.mp hpair
  simp [touches]

/-- A slot is in one pair of each other row that it is a partner in. -/
theorem filter_row_second (hne : a ≠ s) (hnodup : partners.Nodup) (hs : s ∈ partners) :
    (row a partners).filter (touches s) = [(a, s)] := by
  have hpartner : touches s ∘ (fun b => (a, b)) = (fun b => decide (b = s)) := by
    funext b
    simp [touches, hne]
  rw [row, List.filter_map, hpartner, List.filter_eq, List.count_eq_one_of_mem hnodup hs]
  rfl

/-- A slot is in no pair of the rows that it does not take part in. -/
theorem filter_row_neither (hne : a ≠ s) (hs : s ∉ partners) :
    (row a partners).filter (touches s) = [] := by
  refine List.filter_eq_nil_iff.mpr fun pair hpair => ?_
  obtain ⟨b, hb, rfl⟩ := List.mem_map.mp hpair
  have hother : b ≠ s := fun heq => hs (heq ▸ hb)
  simp [touches, hne, hother]

/-- The numbers below a bound, with one of them taken apart from those before and after it. -/
theorem range'_split (hk : k < n) :
    List.range' 0 n = List.range' 0 k ++ k :: List.range' (k + 1) (n - (k + 1)) := by
  obtain ⟨rest, rfl⟩ := Nat.exists_eq_add_of_lt hk
  have happend := List.range'_append_1 (s := 0) (m := k) (n := rest + 1)
  rw [Nat.zero_add, List.range'_succ] at happend
  have hrest : k + rest + 1 - (k + 1) = rest := by omega
  rw [hrest, happend, Nat.add_assoc]

/-- The slots before one of a patch are other slots. -/
theorem ne_of_before : ∀ i ∈ List.range' 0 k, (⟨p, i⟩ : Slot) ≠ ⟨p, k⟩ := by
  intro i hi heq
  rw [List.mem_range'_1] at hi
  have hindex : i = k := congrArg Slot.index heq
  omega

/-- The slots after one of a patch are other slots. -/
theorem ne_of_after : ∀ i ∈ List.range' (k + 1) m, (⟨p, i⟩ : Slot) ≠ ⟨p, k⟩ := by
  intro i hi heq
  rw [List.mem_range'_1] at hi
  have hindex : i = k := congrArg Slot.index heq
  omega

/-- The rows of some slots of a patch. -/
def rows (p : PatchId) (partners : Nat → List Slot) (indices : List Nat) : List (Slot × Slot) :=
  indices.flatMap fun i => row ⟨p, i⟩ (partners i)

theorem rows_append (p : PatchId) (partners : Nat → List Slot) (indices more : List Nat) :
    rows p partners (indices ++ more) = rows p partners indices ++ rows p partners more :=
  List.flatMap_append

theorem rows_cons (p : PatchId) (partners : Nat → List Slot) (i : Nat) (indices : List Nat) :
    rows p partners (i :: indices) = row ⟨p, i⟩ (partners i) ++ rows p partners indices := rfl

variable {rowsOf : Nat → List Slot} {indices : List Nat}

theorem filter_rows_second (hne : ∀ i ∈ indices, (⟨p, i⟩ : Slot) ≠ s)
    (hnodup : ∀ i, (rowsOf i).Nodup) (hs : ∀ i ∈ indices, s ∈ rowsOf i) :
    (rows p rowsOf indices).filter (touches s) = indices.map fun i => (⟨p, i⟩, s) := by
  rw [rows, List.filter_flatMap, List.map_eq_flatMap]
  exact List.flatMap_congr fun i hi => filter_row_second (hne i hi) (hnodup i) (hs i hi)

theorem filter_rows_neither (hne : ∀ i ∈ indices, (⟨p, i⟩ : Slot) ≠ s)
    (hs : ∀ i ∈ indices, s ∉ rowsOf i) : (rows p rowsOf indices).filter (touches s) = [] := by
  rw [rows, List.filter_flatMap, List.flatMap_eq_nil_iff]
  exact fun i hi => filter_row_neither (hne i hi) (hs i hi)

/-- **The pairs that a slot is in**, of those within its patch: one with each slot before it, and
then one with each slot after it. -/
theorem filter_pairsInside (hk : k < n) :
    (pairsInside p n 0 n).filter (touches ⟨p, k⟩) =
      ((List.range' 0 k).map fun i => (⟨p, i⟩, ⟨p, k⟩)) ++
        row ⟨p, k⟩ (slotsFrom p (k + 1) (n - (k + 1))) := by
  have hrows : pairsInside p n 0 n =
      rows p (fun i => slotsFrom p (i + 1) (n - (i + 1))) (List.range' 0 n) := rfl
  rw [hrows, range'_split hk, rows_append, rows_cons, List.filter_append, List.filter_append,
    filter_row_first, filter_rows_second ne_of_before, filter_rows_neither ne_of_after,
    List.append_nil]
  · intro i hi hmem
    rw [List.mem_range'_1] at hi
    have hindex := (mem_slotsFrom.mp hmem).2.1
    dsimp only at hindex
    omega
  · exact fun i => nodup_slotsFrom _ _ _
  · intro i hi
    rw [List.mem_range'_1] at hi
    exact mem_slotsFrom.mpr ⟨rfl, by dsimp only; omega, by dsimp only; omega⟩

/-- **The pairs that a slot of the first patch is in**: one with each slot of the second patch. -/
theorem filter_pairsAcross_first (hpatches : p ≠ q) (hk : k < n) :
    (pairsAcross p q m 0 n).filter (touches ⟨p, k⟩) = row ⟨p, k⟩ (slotsFrom q 0 m) := by
  have hrows : pairsAcross p q m 0 n = rows p (fun _ => slotsFrom q 0 m) (List.range' 0 n) := rfl
  have hpartner : (⟨p, k⟩ : Slot) ∉ slotsFrom q 0 m := fun hmem =>
    hpatches (mem_slotsFrom.mp hmem).1
  rw [hrows, range'_split hk, rows_append, rows_cons, List.filter_append, List.filter_append,
    filter_row_first, filter_rows_neither ne_of_before fun _ _ => hpartner,
    filter_rows_neither ne_of_after fun _ _ => hpartner, List.append_nil, List.nil_append]

/-- **The pairs that a slot of the second patch is in**: one with each slot of the first patch. -/
theorem filter_pairsAcross_second (hpatches : p ≠ q) (hk : k < m) :
    (pairsAcross p q m 0 n).filter (touches ⟨q, k⟩) =
      (List.range' 0 n).map fun i => (⟨p, i⟩, ⟨q, k⟩) := by
  refine filter_rows_second (fun i _ heq => hpatches (congrArg Slot.patch heq))
    (fun _ => nodup_slotsFrom q 0 m) fun i _ => ?_
  exact mem_slotsFrom.mpr ⟨rfl, Nat.zero_le k, by rw [Nat.zero_add]; exact hk⟩

end Touching

/-! ## What is found on a slot -/

namespace Found

variable {law : ForceLaw} {grid : Grid} {place : Slot → Vec3} {x : Found} {s : Slot}

variable (law grid place) in
/-- The force on a slot after one more pair that it is in. -/
def feel (s : Slot) (sum : Vec3) (pair : Slot × Slot) : Vec3 :=
  let f := ForceTask.forceBetween law grid (place pair.1) (place pair.2)
  if pair.1 = s then sum.push f else sum.pull f

/-- An evaluation is felt on the two slots of the pair. -/
theorem force_interact (x : Found) {pair : Slot × Slot} (hne : pair.1 ≠ pair.2) (s : Slot) :
    (x.interact law grid place pair).force s =
      if touches s pair then feel law grid place s (x.force s) pair else x.force s := by
  obtain ⟨a, b⟩ := pair
  by_cases hzero : (ForceTask.forceBetween law grid (place a) (place b)).isZero
  · rw [interact_of_zero hzero, feel, Vec3.push, Vec3.pull, if_pos hzero, if_pos hzero, ite_self,
      ite_self]
  · rw [interact_of_force hzero hne, feel, Vec3.push, Vec3.pull, if_neg hzero, if_neg hzero]
    by_cases hsecond : s = b
    · have hfirst : a ≠ s := hsecond ▸ hne
      simp [touches, hsecond, hne]
    · by_cases hfirst : s = a
      · simp [touches, hfirst, hne]
      · simp [touches, hsecond, hfirst, Ne.symm hsecond, Ne.symm hfirst]

/-- **What is found on a slot** is gathered from the pairs that it is in, in order. -/
theorem force_interactAll (x : Found) {pairs : List (Slot × Slot)}
    (hne : ∀ pair ∈ pairs, pair.1 ≠ pair.2) (s : Slot) :
    (x.interactAll law grid place pairs).force s =
      (pairs.filter (touches s)).foldl (feel law grid place s) (x.force s) := by
  rw [List.foldl_filter]
  induction pairs generalizing x with
  | nil => rfl
  | cons pair pairs ih =>
    rw [List.forall_mem_cons] at hne
    rw [interactAll, List.foldl_cons, ← interactAll, ih _ hne.2, List.foldl_cons,
      x.force_interact hne.1]

variable (law grid place) in
/-- Whether there is a force between two slots. -/
def interacts (pair : Slot × Slot) : Bool :=
  !(ForceTask.forceBetween law grid (place pair.1) (place pair.2)).isZero

/-- One more pair is counted if there is a force. -/
theorem interacting_interact (x : Found) (pair : Slot × Slot) :
    (x.interact law grid place pair).counts.interacting =
      x.counts.interacting + if interacts law grid place pair then 1 else 0 := by
  rw [interact, interacts]
  dsimp only
  split
  · next hzero =>
    rw [hzero]
    rfl
  · next hforce =>
    rw [Bool.not_eq_true] at hforce
    rw [hforce]
    rfl

/-- **How many interact** is counted. -/
theorem interacting_interactAll (x : Found) (pairs : List (Slot × Slot)) :
    (x.interactAll law grid place pairs).counts.interacting =
      x.counts.interacting + pairs.countP (interacts law grid place) := by
  induction pairs generalizing x with
  | nil => rfl
  | cons pair pairs ih =>
    rw [interactAll, List.foldl_cons, ← interactAll, ih, interacting_interact, List.countP_cons]
    omega

end Found

/-! ## Evaluations -/

namespace ForceTask

open Found

variable {law : ForceLaw} {grid : Grid} {positions : PatchId → List Vec3} {p q : PatchId}
  {n m k : Nat}

/-- A list is read off index by index. -/
theorem map_range_getD (list : List Vec3) :
    (List.range list.length).map (fun i => list.getD i Vec3.zero) = list := by
  refine List.ext_getElem? fun i => ?_
  rw [List.getElem?_map]
  by_cases hi : i < list.length
  · rw [List.getElem?_range hi, Option.map_some, List.getD_eq_getElem?_getD,
      List.getElem?_eq_getElem hi]
    rfl
  · rw [List.getElem?_eq_none (by simpa using hi), List.getElem?_eq_none (by simpa using hi)]
    rfl

/-- All numbers below a bound but one. -/
theorem filter_range_ne (hk : k < n) :
    (List.range n).filter (· ≠ k) = List.range' 0 k ++ List.range' (k + 1) (n - (k + 1)) := by
  rw [List.range_eq_range', range'_split hk, List.filter_append, List.filter_cons_of_neg (by simp)]
  congr 1
  · refine List.filter_eq_self.mpr fun i hi => decide_eq_true ?_
    rw [List.mem_range'_1] at hi
    omega
  · refine List.filter_eq_self.mpr fun i hi => decide_eq_true ?_
    rw [List.mem_range'_1] at hi
    omega

/-- All numbers below a bound that are larger than one of them. -/
theorem filter_range_lt (hk : k < n) :
    (List.range n).filter (k < ·) = List.range' (k + 1) (n - (k + 1)) := by
  rw [List.range_eq_range', range'_split hk, List.filter_append, List.filter_cons_of_neg (by simp)]
  have hbefore : (List.range' 0 k).filter (k < ·) = [] := by
    refine List.filter_eq_nil_iff.mpr fun i hi hlater => ?_
    rw [List.mem_range'_1] at hi
    have := of_decide_eq_true hlater
    omega
  rw [hbefore, List.nil_append]
  refine List.filter_eq_self.mpr fun i hi => decide_eq_true ?_
  rw [List.mem_range'_1] at hi
  omega

/-- The slots of a pair that a task evaluates are different. -/
theorem ne_of_mem_pairsOf {size : PatchId → Nat} {patches : List PatchId} (hnodup : patches.Nodup) :
    ∀ pair ∈ pairsOf size patches, pair.1 ≠ pair.2 := by
  rintro ⟨a, b⟩ hpair heq
  obtain rfl : a = b := heq
  match patches with
  | [] => cases hpair
  | [p] => exact Nat.lt_irrefl _ (mem_pairsOf_self.mp hpair).2.2.1
  | p :: q :: _ =>
    obtain ⟨hfirst, hsecond, -⟩ := mem_pairsOf_two.mp hpair
    exact (List.nodup_cons.mp hnodup).1 (hfirst.symm.trans hsecond ▸ List.mem_cons_self)

/-- What a task on one patch finds on one of its slots. -/
theorem force_self (hk : k < (positions p).length) :
    (foundOn law grid positions [p]).force ⟨p, k⟩ = forceWithin law grid (positions p) k := by
  have hfilter : (pairsOf (fun p => (positions p).length) [p]).filter (touches ⟨p, k⟩) = _ :=
    filter_pairsInside hk
  rw [foundOn, force_interactAll _ (ne_of_mem_pairsOf (List.nodup_singleton p)), hfilter,
    List.foldl_append, List.foldl_map, row, List.foldl_map, slotsFrom, List.foldl_map, forceWithin,
    filter_range_ne hk, List.foldl_append]
  -- the slots before it, and then those after it
  have hbefore : ∀ sum, ∀ i ∈ List.range' 0 k,
      feel law grid (Slot.position positions) ⟨p, k⟩ sum (⟨p, i⟩, ⟨p, k⟩) =
        if k < i then
          sum.push (forceBetween law grid (Slot.position positions ⟨p, k⟩)
            (Slot.position positions ⟨p, i⟩))
        else
          sum.pull (forceBetween law grid (Slot.position positions ⟨p, i⟩)
            (Slot.position positions ⟨p, k⟩)) := by
    intro sum i hi
    have hlt := List.mem_range'_1.mp hi
    rw [if_neg (by omega), feel]
    exact if_neg (ne_of_before i hi)
  rw [List.foldl_ext _ _ _ hbefore]
  refine List.foldl_ext _ _ _ fun sum j hj => ?_
  rw [List.mem_range'_1] at hj
  rw [if_pos (by omega), feel]
  exact if_pos rfl

/-- What a task on two patches finds on a slot of the first one. -/
theorem force_first (hnodup : [p, q].Nodup) (hk : k < (positions p).length) :
    (foundOn law grid positions [p, q]).force ⟨p, k⟩ =
      forceOnFirst law grid (positions q) ((positions p).getD k Vec3.zero) := by
  have hne : p ≠ q := by simpa using hnodup
  have hfilter : (pairsOf (fun p => (positions p).length) [p, q]).filter (touches ⟨p, k⟩) = _ :=
    filter_pairsAcross_first hne hk
  rw [foundOn, force_interactAll _ (ne_of_mem_pairsOf hnodup), hfilter, row,
    List.foldl_map, slotsFrom, List.foldl_map, ← List.range_eq_range', forceOnFirst]
  conv_rhs => rw [← map_range_getD (positions q), List.foldl_map]
  exact List.foldl_ext _ _ _ fun sum j _ => if_pos rfl

/-- What a task on two patches finds on a slot of the second one. -/
theorem force_second (hnodup : [p, q].Nodup) (hk : k < (positions q).length) :
    (foundOn law grid positions [p, q]).force ⟨q, k⟩ =
      forceOnSecond law grid (positions p) ((positions q).getD k Vec3.zero) := by
  have hne : p ≠ q := by simpa using hnodup
  have hfilter : (pairsOf (fun p => (positions p).length) [p, q]).filter (touches ⟨q, k⟩) = _ :=
    filter_pairsAcross_second hne hk
  rw [foundOn, force_interactAll _ (ne_of_mem_pairsOf hnodup), hfilter,
    List.foldl_map, ← List.range_eq_range', forceOnSecond]
  conv_rhs => rw [← map_range_getD (positions p), List.foldl_map]
  exact List.foldl_ext _ _ _ fun sum i _ => if_neg fun heq => hne (congrArg Slot.patch heq)

/-- The pairs within a patch, by their indices. -/
theorem map_pairsInside (p : PatchId) (n : Nat) :
    (pairsInside p n 0 n).map (fun pair => (pair.1.index, pair.2.index)) =
      (List.range n ×ˢ List.range n).filter fun pair => pair.1 < pair.2 := by
  change _ = ((List.range n).flatMap fun i => (List.range n).map (Prod.mk i)).filter _
  rw [pairsInside, List.map_flatMap, List.filter_flatMap, ← List.range_eq_range']
  refine List.flatMap_congr fun i hi => ?_
  have hlater : (fun pair : Nat × Nat => decide (pair.1 < pair.2)) ∘ Prod.mk i =
      fun j => decide (i < j) := rfl
  rw [List.filter_map, hlater, filter_range_lt (List.mem_range.mp hi), slotsFrom, List.map_map,
    List.map_map]
  rfl

/-- The pairs between two patches, by the positions of their atoms. -/
theorem map_pairsAcross (positions : PatchId → List Vec3) (p q : PatchId) :
    (pairsAcross p q (positions q).length 0 (positions p).length).map
        (fun pair => (Slot.position positions pair.1, Slot.position positions pair.2)) =
      positions p ×ˢ positions q := by
  change _ = (positions p).flatMap fun a => (positions q).map (Prod.mk a)
  conv_rhs => rw [← map_range_getD (positions p), List.flatMap_map]
  rw [pairsAcross, List.map_flatMap, ← List.range_eq_range']
  refine List.flatMap_congr fun i _ => ?_
  conv_rhs => rw [← map_range_getD (positions q), List.map_map]
  rw [slotsFrom, List.map_map, List.map_map, ← List.range_eq_range']
  rfl

/-- How many interact within a patch. -/
theorem interacting_self :
    (foundOn law grid positions [p]).counts.interacting =
      interactingWithin law grid (positions p) := by
  rw [foundOn, interacting_interactAll, interactingWithin, ← map_pairsInside p, List.countP_map]
  refine (Nat.zero_add _).trans (List.countP_congr fun pair hpair => ?_)
  -- both slots are on the patch
  obtain ⟨⟨_, i⟩, ⟨_, j⟩⟩ := pair
  obtain ⟨rfl, rfl, -⟩ := mem_pairsOf_self.mp hpair
  exact Iff.rfl

/-- How many interact between two patches. -/
theorem interacting_pair :
    (foundOn law grid positions [p, q]).counts.interacting =
      interactingBetween law grid (positions p) (positions q) := by
  rw [foundOn, interacting_interactAll, interactingBetween, ← map_pairsAcross, List.countP_map]
  exact Nat.zero_add _

/-- Counts are known by their two numbers. -/
theorem counts_eq {c : PairCounts} {evaluated interacting : Nat}
    (hevaluated : c.evaluated = evaluated) (hinteracting : c.interacting = interacting) :
    c = ⟨evaluated, interacting⟩ := by
  cases c
  cases hevaluated
  cases hinteracting
  rfl

variable (law grid) in
/-- **An evaluation within a list**, by reference. -/
theorem evaluate_self (list : List Vec3) :
    evaluate law grid [list] = .ok ([(List.range list.length).map (forceWithin law grid list)],
      ⟨list.length * (list.length - 1) / 2, interactingWithin law grid list⟩) := by
  -- the list may be that of any patch
  have heval := evaluate_eq law grid (fun _ => list) (List.cons_ne_nil (⟨0⟩ : PatchId) [])
    (List.nodup_singleton _)
  rw [List.map_singleton, List.map_singleton] at heval
  rw [heval, Found.on, List.map_congr_left fun k hk => force_self (List.mem_range.mp hk)]
  congr 2
  refine counts_eq ?_ interacting_self
  rw [foundOn, evaluated_interactAll, length_pairsOf_self, Nat.choose_two_right]
  exact Nat.zero_add _

variable (law grid) in
/-- **An evaluation between two lists**, by reference. -/
theorem evaluate_pair (first second : List Vec3) :
    evaluate law grid [first, second] =
      .ok ([first.map (forceOnFirst law grid second), second.map (forceOnSecond law grid first)],
        ⟨first.length * second.length, interactingBetween law grid first second⟩) := by
  -- the lists may be those of any two patches
  let positions : PatchId → List Vec3 := fun p => if p = ⟨0⟩ then first else second
  have hnodup : [(⟨0⟩ : PatchId), ⟨1⟩].Nodup := by decide
  have hfirst : (foundOn law grid positions [⟨0⟩, ⟨1⟩]).on ⟨0⟩ first.length =
      first.map (forceOnFirst law grid second) := by
    rw [Found.on, List.map_congr_left fun k hk => force_first hnodup (List.mem_range.mp hk)]
    conv_rhs => rw [← map_range_getD first, List.map_map]
    rfl
  have hsecond : (foundOn law grid positions [⟨0⟩, ⟨1⟩]).on ⟨1⟩ second.length =
      second.map (forceOnSecond law grid first) := by
    rw [Found.on, List.map_congr_left fun k hk => force_second hnodup (List.mem_range.mp hk)]
    conv_rhs => rw [← map_range_getD second, List.map_map]
    rfl
  have hcounts : (foundOn law grid positions [⟨0⟩, ⟨1⟩]).counts =
      ⟨first.length * second.length, interactingBetween law grid first second⟩ := by
    refine counts_eq ?_ interacting_pair
    rw [foundOn, evaluated_interactAll, length_pairsOf_two]
    exact Nat.zero_add _
  rw [← hfirst, ← hsecond, ← hcounts]
  exact evaluate_eq law grid positions (List.cons_ne_nil (⟨0⟩ : PatchId) [⟨1⟩]) hnodup

end ForceTask

end PatchDynamics
