import PatchDynamics.Experiment.Run
import PatchDynamics.Proofs.Directory.Residence
import PatchDynamics.Proofs.Schedule.Round

/-!
# The phases of publication and forces

Every patch begins its step, all tasks run, and the integrator waits until it has heard that all
boxes are closed. Between steps, with tasks registered for every patch, none of this fails:

* `publish_ok` — every patch begins its step;
* `Crew.heard_after` — what the integrator has been told after some turns;
* `length_le_closedCount` — after a smooth step it has heard of every patch;
* `forces_ok` — the tasks run in whatever order, and the integrator has nothing to wait for.
-/

namespace PatchDynamics

/-! ## What has been said stays said -/

/-- A log that both parts of an action only add to is added to. -/
theorem grows_bind {σ α β τ : Type} (log : σ → List τ) {m : Action σ α} {f : α → Action σ β}
    (hm : ∀ s, log s <+: log (m s).2) (hf : ∀ a s, log s <+: log (f a s).2) (s : σ) :
    log s <+: log ((m >>= f) s).2 := by
  have hbind : (m >>= f) s = ExceptT.bindCont f (m s).1 (m s).2 := rfl
  rw [hbind]
  refine (hm s).trans ?_
  cases (m s).1 with
  | ok a => exact hf a (m s).2
  | error e => exact List.prefix_refl _

/-- What the integrator has been told and has not taken yet. -/
def Assembly.heard (s : Assembly) : List Signal := s.signals.toList

theorem Assembly.heard_onPatch {α : Type} (id : PatchId) (absent : Failure)
    (f : Patch → Patch.Reply α) (s : Assembly) : s.heard <+: (onPatch id absent f s).2.heard := by
  rw [onPatch_apply]
  cases hcall : s.call id f with
  | none => exact List.prefix_refl _
  | some result =>
    rw [call, Option.map_eq_some_iff] at hcall
    obtain ⟨⟨⟨outcome, signals⟩, patches⟩, -, rfl⟩ := hcall
    have hmore : s.heard <+: (s.signals ++ signals).toList := by
      rw [Array.toList_appendList]
      exact List.prefix_append _ _
    cases outcome <;> exact hmore

theorem Worker.heard_move (law : ForceLaw) (grid : Grid) (w : Worker) (s : Assembly) :
    s.heard <+: (w.move law grid s).2.heard := by
  cases w with
  | reading t positions next ahead =>
    refine grows_bind Assembly.heard (fun s => ?_) (fun more s => ?_) s
    · refine grows_bind Assembly.heard ?_ (fun _ _ => List.prefix_refl _) s
      exact Assembly.heard_onPatch _ _ _
    · cases proceed law grid t (positions ++ [more]) ahead <;> exact List.prefix_refl _
  | writing ahead counts =>
    cases ahead with
    | nil => exact List.prefix_refl _
    | cons head ahead =>
      refine grows_bind Assembly.heard ?_ (fun _ _ => List.prefix_refl _) s
      exact Assembly.heard_onPatch _ _ _

namespace Crew

variable (laws : ComputeId → ForceLaw) (grid : Grid)

/-- A turn adds what is seen of it to what the integrator has been told. -/
theorem heard_turn (c : Crew) (id : ComputeId) :
    (c.turn laws grid id).assembly.heard = c.assembly.heard ++ (c.seen laws grid id).signals := by
  have hgrows : c.assembly.heard <+: (c.turn laws grid id).assembly.heard := by
    have hmove := (c.workers id).heard_move (laws id) grid c.assembly
    rw [turn]
    generalize (c.workers id).move (laws id) grid c.assembly = result at hmove
    rcases result with ⟨_ | w, s⟩ <;> exact hmove
  exact (List.prefix_iff_eq_append.mp hgrows).symm

/-- **What the integrator has been told** after some turns. -/
theorem heard_after (c : Crew) (order : List ComputeId) :
    (c.after laws grid order).assembly.heard =
      c.assembly.heard ++ (c.history laws grid order).flatMap Turn.signals := by
  induction order generalizing c with
  | nil => exact (List.append_nil _).symm
  | cons id order ih =>
    have hrest := ih (c.turn laws grid id)
    rw [heard_turn, List.append_assoc] at hrest
    exact hrest

end Crew

/-! ## What becomes of the lists -/

namespace Patch

variable {p : Patch}

theorem ids_afterMoves (moves : List Move) : (p.afterMoves moves).ids = p.ids := by
  rw [afterMoves]
  split
  · rw [during]
    split <;> rfl
  · rfl

end Patch

namespace Experiment

variable {ids : List PatchId} {tasks : List ForceTask} {s : Assembly}

/-! ## Publication -/

theorem publishAll_ok (tag : UInt32) {l : List Patch} (hrest : ∀ p ∈ l, p.AtRest) :
    publishAll tag l = .ok (l.map fun p => (p.positionsReady tag).patch,
      l.flatMap fun p => (p.positionsReady tag).signals) := by
  induction l with
  | nil => rfl
  | cons p l ih =>
    rw [List.forall_mem_cons] at hrest
    rw [publishAll, (hrest.1.positionsReady tag).1, ih hrest.2]
    rfl

/-- **Every patch begins its step.** -/
theorem publish_ok (migrated : Bool) (hrest : ∀ p ∈ s.patches, p.AtRest) :
    publish migrated s = .ok (s.positionsReady fun _ => if migrated then 1 else 0) := by
  rw [publish, publishAll_ok _ hrest]
  rfl

/-! ## Forces -/

/-- Tasks that run one after the other, as the phase of forces runs them. -/
theorem runTasks_of_mapM {law : ForceLaw} {grid : Grid} {order : List ForceTask} {s' : Assembly}
    {counts : List PairCounts}
    (h : order.mapM (fun t => t.run law grid) s = (.ok counts, s')) (pairs : Nat) :
    ∃ total, runTasks law grid order pairs s = .ok (total, s') := by
  induction order generalizing s pairs counts with
  | nil =>
    rw [List.mapM_nil] at h
    cases h
    exact ⟨pairs, rfl⟩
  | cons t order ih =>
    rw [List.mapM_cons] at h
    obtain ⟨first, s₁, hfirst, h⟩ := ok_of_bind h
    obtain ⟨rest, s₂, hrest, h⟩ := ok_of_bind h
    cases h
    obtain ⟨total, htotal⟩ := ih hrest (pairs + first.interacting)
    refine ⟨total, ?_⟩
    rw [runTasks, perform, hfirst]
    exact htotal

theorem closedCount_append (signals more : List Signal) :
    closedCount (signals ++ more) = closedCount signals + closedCount more := by
  rw [closedCount, List.filter_append, List.length_append, closedCount, closedCount]

/-- Patches of which it was told that their boxes are closed are found among the signals, whatever
is looked for besides. -/
theorem length_le_filter {signals : List Signal} {ids : List PatchId} {wanted : Signal → Bool}
    (hwanted : ∀ id, wanted (.boxesClosed id) = true) (hnodup : ids.Nodup)
    (htold : ∀ id ∈ ids, .boxesClosed id ∈ signals) :
    ids.length ≤ (signals.filter wanted).length := by
  have hsub : ids ⊆ (signals.filter wanted).map Signal.patch := fun id hid =>
    List.mem_map.mpr ⟨_, List.mem_filter.mpr ⟨htold id hid, hwanted id⟩, rfl⟩
  have hlength := (hnodup.subperm hsub).length_le
  rwa [List.length_map] at hlength

/-- Patches of which it was told that their boxes are closed are counted. -/
theorem length_le_closedCount {signals : List Signal} {ids : List PatchId} (hnodup : ids.Nodup)
    (htold : ∀ id ∈ ids, .boxesClosed id ∈ signals) : ids.length ≤ closedCount signals :=
  length_le_filter (fun _ => rfl) hnodup htold

/-- **The phase of forces** does not fail if each patch has a task, and in whatever order the tasks
run, the integrator has heard of all patches at the end. -/
theorem forces_ok (h : Ready ids tasks s.patches)
    (hserved : ∀ p ∈ s.patches, ∃ t ∈ tasks, ∃ e ∈ t.endpoints, p.id = e.patch)
    (tag : PatchId → UInt32) (law : ForceLaw) (grid : Grid) {order : List ForceTask}
    (hperm : order.Perm tasks) (step : Nat) :
    ∃ pairs s', runTasks law grid order 0 (s.positionsReady tag) = .ok (pairs, s') ∧
      awaitBoxes step s' = .ok s'.takeSignals.2 ∧ s'.frame = s.frame ∧
      s'.patches = afterStep (fun _ => law) grid tasks (s.positionsReady tag).patches := by
  have hequipped := h.equipped tag
  obtain ⟨counts, hruns⟩ := @runs_eq (fun _ => law) grid _ _ hequipped _ rfl order hperm
  obtain ⟨pairs, hpairs⟩ := runTasks_of_mapM hruns 0
  have hcomplete := complete_inRow hequipped.computes hperm
  have hpatches := @patches_after (fun _ => law) grid _ _ _ _ hequipped rfl hcomplete
  refine ⟨pairs, _, hpairs, ?_, Crew.frame_after .., hpatches⟩
  -- the integrator has been told that the boxes of each patch are closed
  have hready := h.afterStep tag (fun _ => law) grid
  have htold : ∀ id ∈ ids, .boxesClosed id ∈
      (Crew.history (fun _ => law) grid (Crew.muster tasks (s.positionsReady tag))
        (inRow order)).flatMap Turn.signals := by
    intro id hid
    rw [← hready.enrolled.named] at hid
    obtain ⟨q, hq, rfl⟩ := List.mem_map.mp hid
    have hsame : q.id ∈ s.patches.map Patch.id := by
      rw [h.enrolled.named, ← hready.enrolled.named]
      exact List.mem_map_of_mem hq
    obtain ⟨p, hp, hpq⟩ := List.mem_map.mp hsame
    obtain ⟨t, ht, e, he, hpatch⟩ := hserved p hp
    have hheard := (smooth_of_complete (fun _ => law) grid hequipped rfl hcomplete).heard hq ht he
      (hpq.symm.trans hpatch)
    refine List.mem_of_mem_filter (p := fun signal => decide (signal.patch = q.id)) ?_
    rw [hheard]
    exact List.mem_cons_of_mem _ List.mem_cons_self
  have hclosed := length_le_closedCount h.enrolled.distinct htold
  have hlength : ids.length = (afterStep (fun _ => law) grid tasks
      (s.positionsReady tag).patches).length := by
    rw [← hready.enrolled.named, List.length_map]
  rw [awaitBoxes, Assembly.takeSignals]
  refine if_neg (Nat.not_lt_of_le ?_)
  rw [← Assembly.heard, Crew.heard_after, closedCount_append, hpatches, ← hlength]
  exact Nat.le_add_left_of_le hclosed

/-- The particles of the patches are the same after the step. -/
theorem lists_afterStep (h : Ready ids tasks s.patches) (tag : PatchId → UInt32)
    (laws : ComputeId → ForceLaw) (grid : Grid) :
    (afterStep laws grid tasks (s.positionsReady tag).patches).map (fun p => (p.id, p.ids)) =
      s.patches.map fun p => (p.id, p.ids) := by
  rw [afterStep, Assembly.positionsReady, List.map_map, List.map_map]
  refine List.map_congr_left fun p hp => ?_
  have hcontinues := (h.stepped tag laws grid hp).1
  refine Prod.ext hcontinues.id ?_
  exact (Patch.ids_afterMoves _).trans ((h.enrolled.resting p hp).stands.ids_positionsReady _)

end Experiment

end PatchDynamics
