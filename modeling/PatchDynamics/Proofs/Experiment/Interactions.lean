import Mathlib.Algebra.BigOperators.Ring.List
import PatchDynamics.Proofs.Grid.Neighbors
import PatchDynamics.Proofs.Schedule.Independence
import PatchDynamics.Proofs.Schedule.Pairs
import PatchDynamics.Proofs.Schedule.Registration

/-!
# Interactions

Two atoms interact in a step if they are in the same patch or in patches that touch. The tasks of a
grid are made so that each such pair is evaluated by one task, and in one order only:

* `Interact` — the relation, on slots, `Grid.interactions` — the pairs that the tasks evaluate;
* `Fits.count_interactions` — every pair of slots that interact is evaluated once, no other is;
* `Fits.length_interactions`, `Fits.length_interactions_of_side_le` — how many there are;
* `interactions_once` — a step in which the tasks are run in any order.
-/

namespace PatchDynamics

namespace Grid

/-! ## Slots that interact -/

section Slots

variable (g : Grid) (size : PatchId → Nat)

/-- Whether there is an atom at a slot, where each patch has so many of them. -/
def Occupied (a : Slot) : Prop := a.patch ∈ g.patches ∧ a.index < size a.patch

instance (a : Slot) : Decidable (g.Occupied size a) :=
  inferInstanceAs (Decidable (a.patch ∈ g.patches ∧ a.index < size a.patch))

/-- Whether two slots are different, and their patches are the same or touch. -/
def Interact (a b : Slot) : Prop :=
  a ≠ b ∧ g.Occupied size a ∧ g.Occupied size b ∧
    (a.patch = b.patch ∨ g.Touches a.patch b.patch)

instance (a b : Slot) : Decidable (g.Interact size a b) :=
  inferInstanceAs (Decidable (a ≠ b ∧ g.Occupied size a ∧ g.Occupied size b ∧
    (a.patch = b.patch ∨ g.Touches a.patch b.patch)))

/-- Whether a slot comes before another one: in the same patch, or by the numbers of the patches. -/
def Before (a b : Slot) : Prop :=
  a.patch = b.patch ∧ a.index < b.index ∨ a.patch.number < b.patch.number

/-- The pairs of slots within each patch, and those of each two patches that touch. -/
def interactions : List (Slot × Slot) :=
  (g.patches.flatMap fun p => pairsOf size [p]) ++
    g.touching.flatMap fun pair => pairsOf size [pair.1, pair.2]

variable {g size} {a b : Slot}

theorem Interact.symm (h : g.Interact size a b) : g.Interact size b a := by
  obtain ⟨hne, ha, hb, htogether⟩ := h
  exact ⟨hne.symm, hb, ha, htogether.imp Eq.symm Touches.symm⟩

theorem Before.asymm (h : Before a b) : ¬ Before b a := by
  rintro (⟨hback, hindex⟩ | hback)
  · rcases h with ⟨-, hlt⟩ | hlt
    · exact Nat.lt_asymm hindex hlt
    · exact absurd hlt (hback ▸ UInt32.lt_irrefl _)
  · rcases h with ⟨heq, -⟩ | hlt
    · exact absurd hback (heq ▸ UInt32.lt_irrefl _)
    · exact UInt32.lt_asymm hback hlt

/-- Of two different slots, one comes before the other. -/
theorem before_or_before (hne : a ≠ b) : Before a b ∨ Before b a := by
  obtain ⟨p, i⟩ := a
  obtain ⟨q, j⟩ := b
  by_cases hpatch : p = q
  · subst hpatch
    have hindex : i ≠ j := fun heq => hne (congrArg (Slot.mk p) heq)
    exact (Nat.lt_or_gt_of_ne hindex).imp (fun hlt => .inl ⟨rfl, hlt⟩) fun hlt => .inl ⟨rfl, hlt⟩
  · have hnumber : p.number ≠ q.number := fun heq => hpatch (congrArg PatchId.mk heq)
    exact (UInt32.lt_or_lt_of_ne hnumber).imp .inr .inr

/-- **The pairs that are listed** are the slots that interact, the one that comes before first. -/
theorem mem_interactions : (a, b) ∈ g.interactions size ↔ g.Interact size a b ∧ Before a b := by
  simp only [interactions, List.mem_append, List.mem_flatMap, mem_pairsOf_self, mem_pairsOf_two]
  constructor
  · rintro (⟨p, hp, rfl, hpatch, hlt, hindex⟩ | ⟨⟨p, q⟩, hpair, rfl, rfl, ha, hb⟩)
    · refine ⟨⟨fun heq => ?_, ⟨hp, Nat.lt_trans hlt hindex⟩, ⟨hpatch ▸ hp, hpatch ▸ hindex⟩,
        .inl hpatch.symm⟩, .inl ⟨hpatch.symm, hlt⟩⟩
      exact Nat.ne_of_lt hlt (congrArg Slot.index heq)
    · obtain ⟨hp, hq, hlt, htouches⟩ := mem_touching.mp hpair
      exact ⟨⟨fun heq => htouches.1 (congrArg Slot.patch heq), ⟨hp, ha⟩, ⟨hq, hb⟩,
        .inr htouches⟩, .inr hlt⟩
  · rintro ⟨⟨-, ⟨hp, ha⟩, ⟨hq, hb⟩, htogether⟩, ⟨hpatch, hlt⟩ | hlt⟩
    · exact .inl ⟨a.patch, hp, rfl, hpatch.symm, hlt, hpatch ▸ hb⟩
    · refine .inr ⟨(a.patch, b.patch), mem_touching.mpr ⟨hp, hq, hlt, ?_⟩, rfl, rfl, ha, hb⟩
      refine htogether.resolve_left fun heq => ?_
      exact absurd hlt (heq ▸ UInt32.lt_irrefl _)

end Slots

namespace Fits

variable {g : Grid} {size : PatchId → Nat}

/-- No pair is listed twice. -/
theorem nodup_interactions (h : g.Fits) (size : PatchId → Nat) : (g.interactions size).Nodup := by
  refine List.nodup_append.mpr ⟨?_, ?_, ?_⟩
  · refine List.nodup_flatMap.mpr ⟨fun p _ => nodup_pairsOf size [p], h.nodup.imp ?_⟩
    rintro p q hne
    refine List.disjoint_left.mpr fun ⟨a, b⟩ hp hq => hne ?_
    exact (mem_pairsOf_self.mp hp).1.symm.trans (mem_pairsOf_self.mp hq).1
  · refine List.nodup_flatMap.mpr
      ⟨fun pair _ => nodup_pairsOf size [pair.1, pair.2], h.nodup_touching.imp ?_⟩
    rintro ⟨p, q⟩ ⟨p', q'⟩ hne
    refine List.disjoint_left.mpr fun ⟨a, b⟩ hp hq => hne ?_
    obtain ⟨hfirst, hsecond, -⟩ := mem_pairsOf_two.mp hp
    obtain ⟨hfirst', hsecond', -⟩ := mem_pairsOf_two.mp hq
    exact Prod.ext (hfirst.symm.trans hfirst') (hsecond.symm.trans hsecond')
  · -- a pair within a patch is not one of two patches
    rintro ⟨a, b⟩ hself pair htwo rfl
    obtain ⟨p, -, hself⟩ := List.mem_flatMap.mp hself
    obtain ⟨⟨q, r⟩, hpair, htwo⟩ := List.mem_flatMap.mp htwo
    obtain ⟨hfirst, hsecond, -⟩ := mem_pairsOf_self.mp hself
    obtain ⟨hfirst', hsecond', -⟩ := mem_pairsOf_two.mp htwo
    refine (mem_touching.mp hpair).2.2.2.1 ?_
    exact hfirst'.symm.trans (hfirst.trans (hsecond.symm.trans hsecond'))

/-- **Each interaction is listed once**, with its slots in one order or the other, and nothing else
is. -/
theorem count_interactions (h : g.Fits) (size : PatchId → Nat) (a b : Slot) :
    (g.interactions size).count (a, b) + (g.interactions size).count (b, a) =
      if g.Interact size a b then 1 else 0 := by
  have hnodup := h.nodup_interactions size
  rw [hnodup.count, hnodup.count]
  by_cases hab : g.Interact size a b
  · rcases before_or_before hab.1 with hfirst | hfirst
    · rw [if_pos (mem_interactions.mpr ⟨hab, hfirst⟩),
        if_neg fun hback => hfirst.asymm (mem_interactions.mp hback).2, if_pos hab]
    · rw [if_neg fun hback => hfirst.asymm (mem_interactions.mp hback).2,
        if_pos (mem_interactions.mpr ⟨hab.symm, hfirst⟩), if_pos hab]
  · rw [if_neg fun hpair => hab (mem_interactions.mp hpair).1,
      if_neg fun hpair => hab (mem_interactions.mp hpair).1.symm, if_neg hab]

end Fits

/-! ## How many interact -/

/-- The pairs among two groups are those within each and those across. -/
theorem choose_two_add (n m : Nat) : (n + m).choose 2 = n.choose 2 + n * m + m.choose 2 := by
  induction n with
  | zero => simp
  | succ n ih =>
    have hstep : ∀ k : Nat, (k + 1).choose 2 = k + k.choose 2 := fun k => by
      rw [Nat.choose_succ_succ' k 1, Nat.choose_one_right]
    rw [Nat.succ_add, hstep, hstep, ih, Nat.succ_mul]
    omega

/-- A sum over the pairs of a row and another one that are in some relation. -/
theorem sum_product_filter {α : Type} (r : α → α → Prop) [DecidableRel r] (size : α → Nat)
    (l l' : List α) :
    (((l ×ˢ l').filter fun pair => r pair.1 pair.2).map
        fun pair => size pair.1 * size pair.2).sum =
      (l.map fun a => size a * ((l'.filter (r a ·)).map size).sum).sum := by
  induction l with
  | nil => rfl
  | cons a l ih =>
    have hone : (((l'.map (Prod.mk a)).filter fun pair => r pair.1 pair.2).map
        fun pair => size pair.1 * size pair.2).sum =
          size a * ((l'.filter (r a ·)).map size).sum := by
      rw [List.filter_map, List.map_map, ← List.sum_map_mul_left]
      rfl
    rw [List.product_cons, List.filter_append, List.map_append, List.sum_append, ih, hone,
      List.map_cons, List.sum_cons]

/-- The pairs among groups in a row are those within each and those across any two. -/
theorem choose_two_sum {α : Type} {before : α → α → Prop} [DecidableRel before]
    (asymm : ∀ a b, before a b → ¬ before b a) (size : α → Nat) {l : List α}
    (sorted : l.Pairwise before) :
    (l.map size).sum.choose 2 = (l.map fun a => (size a).choose 2).sum +
      (((l ×ˢ l).filter fun pair => before pair.1 pair.2).map
        fun pair => size pair.1 * size pair.2).sum := by
  rw [sum_product_filter]
  induction sorted with
  | nil => rfl
  | @cons a l hfirst _ ih =>
    -- the first group comes before all others, and none of them before it
    have hself : (a :: l).filter (before a ·) = l := by
      rw [List.filter_cons_of_neg (by simpa using fun h => asymm a a h h), List.filter_eq_self]
      exact fun b hb => decide_eq_true (hfirst b hb)
    have hothers : l.map (fun b => size b * (((a :: l).filter (before b ·)).map size).sum) =
        l.map fun b => size b * ((l.filter (before b ·)).map size).sum := by
      refine List.map_congr_left fun b hb => ?_
      rw [List.filter_cons_of_neg (by simpa using asymm a b (hfirst b hb))]
    rw [List.map_cons, List.sum_cons, choose_two_add, ih, List.map_cons, List.sum_cons,
      List.map_cons, List.sum_cons, hself, hothers]
    omega

variable {g : Grid} {size : PatchId → Nat}

/-- **How many pairs interact**: those within each patch, and all of each two that touch. -/
theorem length_interactions (g : Grid) (size : PatchId → Nat) :
    (g.interactions size).length = (g.patches.map fun p => (size p).choose 2).sum +
      (g.touching.map fun pair => size pair.1 * size pair.2).sum := by
  simp only [interactions, List.length_append, List.length_flatMap, length_pairsOf_self,
    length_pairsOf_two]

namespace Fits

/-- The patches are listed in the order of their numbers. -/
theorem sorted_patches (h : g.Fits) : g.patches.Pairwise fun p q => p.number < q.number := by
  refine List.pairwise_map.mpr (List.pairwise_lt_range.imp_of_mem fun hi hj hlt => ?_)
  rw [UInt32.lt_iff_toNat_lt, h.toNat_ofNat (List.mem_range.mp hi),
    h.toNat_ofNat (List.mem_range.mp hj)]
  exact hlt

/-- **With three cells along each axis, or fewer**, all pairs of atoms interact. -/
theorem length_interactions_of_side_le (h : g.Fits) (hsmall : g.side ≤ 3) (size : PatchId → Nat) :
    (g.interactions size).length = (g.patches.map size).sum.choose 2 := by
  have htouching : g.touching =
      (g.patches ×ˢ g.patches).filter fun pair => pair.1.number < pair.2.number := by
    refine List.filter_congr fun pair _ => decide_eq_decide.mpr ⟨And.left, fun hlt => ⟨hlt, ?_⟩⟩
    refine h.touches_of_side_le hsmall fun heq => ?_
    exact absurd hlt (heq ▸ UInt32.lt_irrefl _)
  rw [length_interactions, htouching,
    choose_two_sum (fun _ _ => UInt32.lt_asymm) size h.sorted_patches]

end Fits

end Grid

/-! ## A step -/

/-- The positions of the atoms of the patch with a number. -/
def positionsOn (l : List Patch) (id : PatchId) : List Vec3 :=
  match l.find? fun p => p.id = id with
  | some p => p.atoms.map Atom.position
  | none => []

/-- What the positions depend on. -/
def Patch.occupants (p : Patch) : PatchId × List Atom := (p.id, p.atoms)

theorem positionsOn_congr {l l' : List Patch}
    (h : l.map Patch.occupants = l'.map Patch.occupants) : positionsOn l = positionsOn l' := by
  funext id
  rw [positionsOn, positionsOn]
  induction l generalizing l' with
  | nil => rw [List.map_eq_nil_iff.mp h.symm]
  | cons p l ih =>
    cases l' with
    | nil => cases h
    | cons q l' =>
      obtain ⟨hfirst, hrest⟩ := List.cons.inj h
      have hid : p.id = q.id := congrArg Prod.fst hfirst
      have hatoms : p.atoms = q.atoms := congrArg Prod.snd hfirst
      by_cases hhere : q.id = id
      · rw [List.find?_cons_of_pos (by simpa [hid] using hhere),
          List.find?_cons_of_pos (by simpa using hhere)]
        exact congrArg (List.map Atom.position) hatoms
      · rw [List.find?_cons_of_neg (by simpa [hid] using hhere),
          List.find?_cons_of_neg (by simpa using hhere)]
        exact ih hrest

/-- A registration leaves all atoms where they are. -/
theorem occupants_registerAll (specs : List Task) (s : Assembly) :
    (specs.mapM ForceTask.register s).2.patches.map Patch.occupants =
      s.patches.map Patch.occupants := by
  refine keeps_registerAll (fun s => s.patches.map Patch.occupants) ?_ specs s
  intro kind task patch absent s
  refine Assembly.map_onPatch Patch.occupants (fun p => ?_) patch absent s
  cases kind <;> (unfold Patch.register; dsimp only; split <;> rfl)

/-- So does the beginning of a step. -/
theorem occupants_positionsReady {s : Assembly} (h : ∀ p ∈ s.patches, p.AtRest)
    (tag : PatchId → UInt32) :
    (s.positionsReady tag).patches.map Patch.occupants = s.patches.map Patch.occupants := by
  rw [Assembly.positionsReady, List.map_map]
  refine List.map_congr_left fun p hp => ?_
  have hstands := (h p hp).stands
  dsimp only [Function.comp_apply]
  by_cases hnone : p.forceBox.expected = 0
  · rw [Patch.positionsReady_of_unattended hstands _ hnone]
    rfl
  · rw [Patch.positionsReady_of_attended hstands _ hnone]
    rfl

namespace ForceTask

variable {t : ForceTask}

/-- **What a task finds** is what the pairs of its patches give. -/
theorem evaluate_found (base : List Patch) (law : ForceLaw) (grid : Grid)
    (hsome : t.endpoints ≠ [])
    (hnodup : (t.endpoints.map Endpoint.patch).Nodup) :
    let found := foundOn law grid (positionsOn base) (t.endpoints.map Endpoint.patch)
    t.forces law grid (positionsAt base) =
        t.endpoints.map (fun e => (e, found.on e.patch (positionsOn base e.patch).length)) ∧
      t.counts law grid (positionsAt base) = found.counts := by
  intro found
  have heval := evaluate_eq law grid (positionsOn base) (mt List.map_eq_nil_iff.mp hsome) hnodup
  have hsame : t.endpoints.map (positionsAt base) =
      (t.endpoints.map Endpoint.patch).map (positionsOn base) := by
    rw [List.map_map]
    rfl
  rw [← hsame] at heval
  rw [ForceTask.forces, ForceTask.counts, heval, List.map_map]
  have hzip := List.zip_map' (f := fun e => e)
    (g := fun e : Endpoint => found.on e.patch (positionsOn base e.patch).length)
    (l := t.endpoints)
  rw [List.map_id'] at hzip
  exact ⟨hzip, rfl⟩

end ForceTask

namespace Grid

/-- All pairs that some tasks evaluate, task by task, where each patch has so many atoms. -/
def evaluations (size : PatchId → Nat) (tasks : List ForceTask) : List (Slot × Slot) :=
  tasks.flatMap fun t => pairsOf size (t.endpoints.map Endpoint.patch)

/-- **The tasks of a grid**, in whatever order, evaluate the pairs that interact. -/
theorem evaluations_perm {g : Grid} {specs : List Task} {tasks order : List ForceTask}
    (hpatches : tasks.map (fun t => t.endpoints.map Endpoint.patch) = specs.map Task.patches)
    (hspecs : (specs.map Task.patches).Perm
      (g.patches.map (fun p => [p]) ++ g.touching.map fun pair => [pair.1, pair.2]))
    (size : PatchId → Nat) (horder : order.Perm tasks) :
    (evaluations size order).Perm (g.interactions size) := by
  have hlists : ((order.map fun t => t.endpoints.map Endpoint.patch).flatMap (pairsOf size)).Perm
      ((g.patches.map (fun p => [p]) ++ g.touching.map fun pair => [pair.1, pair.2]).flatMap
        (pairsOf size)) :=
    ((horder.map _).trans (hpatches ▸ hspecs)).flatMap_right _
  rwa [List.flatMap_map, List.flatMap_append, List.flatMap_map, List.flatMap_map] at hlists

end Grid

/-- The patches of an assembly have as many atoms as there are positions on them. -/
theorem map_length_positionsOn {l : List Patch} (distinct : (l.map Patch.id).Nodup) :
    (l.map Patch.id).map (fun p => (positionsOn l p).length) = l.map Patch.size := by
  rw [List.map_map]
  refine List.map_congr_left fun p hp => ?_
  dsimp only [Function.comp_apply]
  rw [positionsOn, find?_of_mem distinct hp rfl]
  exact List.length_map _

/-- **Every interaction is evaluated once.** Take the patches of a grid whose tasks can be numbered,
idle, without registrations and with any atoms on them. The tasks of the grid can be registered, the
step begins on every patch, and the tasks can be run in any order. Each of them evaluates the pairs
of its patches, one after the other, so that among all of them each pair of slots is evaluated once
if the slots interact, and not at all if they do not. The counts of the tasks add up to the number
of pairs within the patches and of pairs across patches that touch; with three cells along each
axis, or fewer, these are all pairs of atoms. -/
theorem interactions_once {g : Grid} {s₀ : Assembly} (hside : 0 < g.side)
    (few : g.cells + g.touching.length < UInt32.size)
    (named : s₀.patches.map Patch.id = g.patches) (reached : ∀ p ∈ s₀.patches, p.Reached)
    (idle : ∀ p ∈ s₀.patches, p.openBoxes = 0)
    (free : ∀ p ∈ s₀.patches, p.positionBox.tasks = [] ∧ p.forceBox.tasks = [])
    (laws : ComputeId → ForceLaw) (tag : PatchId → UInt32) :
    let positions := positionsOn s₀.patches
    let size := fun p => (positions p).length
    let found := fun t : ForceTask =>
      foundOn (laws t.id) g positions (t.endpoints.map Endpoint.patch)
    ∃ specs tasks s₁, g.tasks = .ok specs ∧ specs.mapM ForceTask.register s₀ = (.ok tasks, s₁) ∧
      (∀ p ∈ s₁.patches, (p.positionsReady (tag p.id)).outcome = .ok ()) ∧
      (∀ t ∈ tasks, t.forces (laws t.id) g (positionsAt (s₁.positionsReady tag).patches) =
        t.endpoints.map fun e => (e, (found t).on e.patch (size e.patch))) ∧
      ∀ order, order.Perm tasks →
        ∃ s₂, order.mapM (fun t => t.run (laws t.id) g) (s₁.positionsReady tag) =
            (.ok (order.map fun t => (found t).counts), s₂) ∧
          (∀ a b, (Grid.evaluations size order).count (a, b) +
              (Grid.evaluations size order).count (b, a) =
            if g.Interact size a b then 1 else 0) ∧
          (order.map fun t => (found t).counts.evaluated).sum =
            (g.patches.map fun p => size p * (size p - 1) / 2).sum +
              (g.touching.map fun pair => size pair.1 * size pair.2).sum ∧
          (g.side ≤ 3 →
            let atoms := (s₀.patches.map Patch.size).sum
            (order.map fun t => (found t).counts.evaluated).sum = atoms * (atoms - 1) / 2) := by
  intro positions size found
  have hfits := Grid.Fits.of_tasks hside few
  have hdistinct : (s₀.patches.map Patch.id).Nodup := named ▸ hfits.nodup
  have hrest : ∀ p ∈ s₀.patches, p.AtRest := fun p hp => (reached p hp).atRest (idle p hp)
  -- the tasks are registered
  obtain ⟨specs, hspecs, computes, hgood, hlists⟩ := hfits.tasks_patches few
  obtain ⟨tasks, s₁, hregistered, -, hplaces⟩ :=
    (Holding.of_free named hfits.nodup free).registerAll
      (fun t ht => (hgood t ht).2) computes fun _ _ _ => nofun
  have hready := ready_of_registered (enrolled_nil hdistinct hrest fun p hp => (free p hp).2)
    computes (fun t ht => (hgood t ht).1) hregistered
  have hequipped := hready.equipped tag
  -- and find the atoms where they were
  have hpositions : positionsOn (s₁.positionsReady tag).patches = positions := by
    refine positionsOn_congr ((occupants_positionsReady hready.enrolled.resting tag).trans ?_)
    have hkept := occupants_registerAll specs s₀
    rwa [hregistered] at hkept
  have hnodup : ∀ t ∈ tasks, (t.endpoints.map Endpoint.patch).Nodup := by
    intro t ht
    have hmem : t.endpoints.map Endpoint.patch ∈ specs.map Task.patches :=
      hplaces ▸ List.mem_map_of_mem ht
    obtain ⟨spec, hspec, heq⟩ := List.mem_map.mp hmem
    exact heq ▸ (hgood spec hspec).2.1
  have hfound : ∀ t ∈ tasks, _ := fun t ht =>
    ForceTask.evaluate_found (s₁.positionsReady tag).patches (laws t.id) g
      (hready.working t ht) (hnodup t ht)
  rw [hpositions] at hfound
  refine ⟨specs, tasks, s₁, hspecs, hregistered, fun p hp => ?_, fun t ht => (hfound t ht).1,
    fun order horder => ?_⟩
  · exact ((hready.enrolled.resting p hp).positionsReady _).1
  have hperm := Grid.evaluations_perm hplaces hlists size horder
  have hsum : (order.map fun t => (found t).counts.evaluated).sum =
      (g.interactions size).length := by
    rw [← hperm.length_eq, Grid.evaluations, List.length_flatMap]
    congr 1
    refine List.map_congr_left fun t _ => ?_
    exact (Found.evaluated_interactAll ..).trans (Nat.zero_add _)
  refine ⟨_, (runs_counts hequipped rfl horder).trans (Prod.ext (congrArg Except.ok ?_) rfl),
    fun a b => ?_, ?_, fun hsmall => ?_⟩
  · exact List.map_congr_left fun t ht => (hfound t (horder.mem_iff.mp ht)).2
  · rw [hperm.count_eq, hperm.count_eq]
    exact hfits.count_interactions size a b
  · rw [hsum, Grid.length_interactions]
    simp only [Nat.choose_two_right]
  · dsimp only
    rw [hsum, hfits.length_interactions_of_side_le hsmall, Nat.choose_two_right, ← named,
      map_length_positionsOn hdistinct]

/-- Two atoms in one patch and a third one in another, on a grid with two cells along each axis. -/
theorem interactions_once_three :
    let g := Grid.new 2 1
    let atoms := fun p : PatchId =>
      if p = ⟨0⟩ then [⟨0, Vec3.zero⟩, ⟨1, Vec3.zero⟩] else if p = ⟨5⟩ then [⟨2, Vec3.zero⟩] else []
    let empty := Assembly.build ⟨4, 0, true, 4⟩ g.patches
    let s₀ := { empty with
      patches := empty.patches.map fun p => (p.editAtoms fun _ => atoms p.id).patch }
    let laws : ComputeId → ForceLaw := fun _ => SoftSpring.law ⟨1, 1⟩
    ∃ specs tasks s₁ counts s₂, g.tasks = .ok specs ∧
      specs.mapM ForceTask.register s₀ = (.ok tasks, s₁) ∧
      tasks.reverse.mapM (fun t => t.run (laws t.id) g) (s₁.positionsReady fun _ => 1) =
        (.ok counts, s₂) ∧
      (counts.map PairCounts.evaluated).sum = 3 := by
  intro g atoms empty s₀ laws
  have reached : ∀ p ∈ s₀.patches, p.Reached := by
    intro q hq
    obtain ⟨p, hp, rfl⟩ := List.mem_map.mp hq
    obtain ⟨⟨id, i⟩, -, rfl⟩ := List.mem_map.mp hp
    exact ⟨id, 3 * i, true, [.editAtoms fun _ => atoms id], rfl⟩
  have few : g.cells + g.touching.length < UInt32.size := by decide +kernel
  have named : s₀.patches.map Patch.id = g.patches := by decide
  obtain ⟨specs, tasks, s₁, hspecs, hregistered, -, -, horders⟩ :=
    interactions_once (by decide) few named reached (by decide) (by decide) laws fun _ => 1
  obtain ⟨s₂, hruns, -, -, hsum⟩ := horders tasks.reverse (List.reverse_perm tasks)
  refine ⟨specs, tasks, s₁, _, s₂, hspecs, hregistered, hruns, ?_⟩
  have hatoms : (s₀.patches.map Patch.size).sum = 3 := by decide
  rw [List.map_map]
  exact (hsum (by decide)).trans (by rw [hatoms])

end PatchDynamics
