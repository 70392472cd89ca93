import PatchDynamics.Proofs.Schedule.Round

/-!
# Independence of schedules

Tasks that are registered on idle patches, with nobody else to deposit forces, work through any
number of steps. In each of them they may take turns in any order, and this file shows that the
order does not matter:

* `played` — some steps, each by a schedule of its own;
* `schedule_independent` — no call fails, every patch completes in the last deposit on it, and the
  schedules make no difference.
-/

namespace PatchDynamics

/-! ## Where it begins -/

namespace Patch

/-- A patch that some run of calls makes of a new one. -/
def Reached (p : Patch) : Prop :=
  ∃ id serial averaged calls, p = (new id serial averaged).after calls

/-- A run of calls leaves the boxes in order. -/
theorem orderly_after {p : Patch} (h : p.Stands .idle) (hfirst : p.step = 0) (ho : p.Orderly)
    (calls : List Call) : (p.after calls).Orderly := by
  induction calls using List.reverseRecOn with
  | nil => exact ho
  | append_singleton calls c ih =>
    obtain ⟨phase, totals, hstands, -⟩ := told_of_stands h hfirst calls
    rw [after_concat]
    exact ih.perform hstands c

/-- A patch without an open box is at rest. -/
theorem Reached.atRest {p : Patch} (h : p.Reached) (hidle : p.openBoxes = 0) : p.AtRest := by
  obtain ⟨id, serial, averaged, calls, rfl⟩ := h
  have hnew := stands_new id serial averaged
  obtain ⟨phase, totals, hstands, -⟩ := told_of_stands hnew rfl calls
  have hcount := hstands.openBoxes_eq
  rw [hidle] at hcount
  refine ⟨?_, orderly_after hnew rfl (orderly_new id serial averaged) calls⟩
  cases phase with
  | idle => exact hstands
  | opened =>
    rw [if_pos rfl] at hcount
    split at hcount <;> cases hcount
  | closed => exact absurd rfl hstands.resting

end Patch

/-- The patches of a new assembly are new, idle and free. -/
theorem new_of_build {settings : Settings} {ids : List PatchId} {p : Patch}
    (hp : p ∈ (Assembly.build settings ids).patches) :
    p.Reached ∧ p.openBoxes = 0 ∧ p.forceBox.tasks = [] := by
  obtain ⟨⟨id, i⟩, -, rfl⟩ := List.mem_map.mp hp
  exact ⟨⟨id, 3 * i, settings.averaged, [], rfl⟩, rfl, rfl⟩

/-- Patches at rest that nobody deposits on know of no handles. -/
theorem enrolled_nil {patches : List Patch} (distinct : (patches.map Patch.id).Nodup)
    (resting : ∀ p ∈ patches, p.AtRest) (free : ∀ p ∈ patches, p.forceBox.tasks = []) :
    Enrolled (patches.map Patch.id) [] patches where
  named := rfl
  distinct := distinct
  resting := resting
  present := nofun
  handles := by
    intro p hp
    have hnil : p.forceBox.registrations = [] := List.map_eq_nil_iff.mp (free p hp)
    rw [Box.handles, hnil]
    rfl

/-- **Tasks are ready** once they are registered. -/
theorem ready_of_registered {ids : List PatchId} {specs : List Task} {tasks : List ForceTask}
    {s s' : Assembly} (h : Enrolled ids [] s.patches) (computes : (specs.map Task.id).Nodup)
    (working : ∀ t ∈ specs, t.patches ≠ [])
    (registered : specs.mapM ForceTask.register s = (.ok tasks, s')) :
    Ready ids tasks s'.patches := by
  obtain ⟨henrolled, hids, hlengths⟩ := h.registerAll registered
  refine ⟨hids ▸ computes, fun t ht hnone => ?_, henrolled⟩
  have hmem : t.endpoints.length ∈ specs.map fun spec => spec.patches.length :=
    hlengths ▸ List.mem_map_of_mem ht
  obtain ⟨spec, hspec, hlength⟩ := List.mem_map.mp hmem
  rw [hnone] at hlength
  exact working spec hspec (List.eq_nil_of_length_eq_zero hlength)

/-! ## Step after step -/

/-- The assembly after some steps, each by a schedule of its own. -/
def played (tasks : List ForceTask) (s : Assembly) (steps : List (Round × List ComputeId)) :
    Assembly :=
  steps.foldl (fun s step => step.1.played tasks s step.2) s

section Steps

variable {ids : List PatchId} {tasks : List ForceTask} {s : Assembly}

/-- Tasks are ready after every step. -/
theorem Ready.after (h : Ready ids tasks s.patches) {steps : List (Round × List ComputeId)}
    (hsteps : ∀ step ∈ steps, Complete tasks step.2) :
    Ready ids tasks (PatchDynamics.played tasks s steps).patches := by
  induction steps generalizing s with
  | nil => exact h
  | cons step steps ih =>
    rw [List.forall_mem_cons] at hsteps
    refine ih (s := step.1.played tasks s step.2) ?_ hsteps.2
    rw [h.played step.1 hsteps.1]
    exact h.ended step.1

/-- **One step by two schedules** leads to the same assembly, as far as the signals are taken. -/
theorem Ready.played_congr (h : Ready ids tasks s.patches) (r : Round) {s' : Assembly}
    (hsame : s.takeSignals.2 = s'.takeSignals.2) {order order' : List ComputeId}
    (horder : Complete tasks order) (horder' : Complete tasks order') :
    (r.played tasks s order).takeSignals.2 = (r.played tasks s' order').takeSignals.2 := by
  have hopened := r.opened_congr hsame
  -- the second schedule starts from the same patches, so the tasks are ready there too
  have hother : Ready ids tasks s.takeSignals.2.patches := h
  rw [hsame] at hother
  refine Assembly.takeSignals_eq ?_ ?_
  · rw [h.played r horder, Ready.played (s := s') hother r horder', Round.ended, Round.ended,
      hopened]
  · rw [Round.played, Round.played, Crew.frame_after, Crew.frame_after, Crew.muster, Crew.muster,
      hopened]

/-- **Many steps by other schedules** lead to the same assembly. -/
theorem Ready.after_congr (h : Ready ids tasks s.patches) {s' : Assembly}
    (hsame : s.takeSignals.2 = s'.takeSignals.2) {steps others : List (Round × List ComputeId)}
    (hrounds : others.map Prod.fst = steps.map Prod.fst)
    (hsteps : ∀ step ∈ steps, Complete tasks step.2)
    (hothers : ∀ step ∈ others, Complete tasks step.2) :
    (PatchDynamics.played tasks s steps).takeSignals.2 =
      (PatchDynamics.played tasks s' others).takeSignals.2 := by
  induction steps generalizing s s' others with
  | nil =>
    rw [List.map_eq_nil_iff.mp hrounds]
    exact hsame
  | cons step steps ih =>
    cases others with
    | nil => cases hrounds
    | cons other others =>
      obtain ⟨hround, hrounds⟩ := List.cons.inj hrounds
      rw [List.forall_mem_cons] at hsteps hothers
      have hready : Ready ids tasks (step.1.played tasks s step.2).patches := by
        rw [h.played step.1 hsteps.1]
        exact h.ended step.1
      -- the first steps lead to the same assembly, by which the others are decided
      have hnext := h.played_congr step.1 hsame hsteps.1 hothers.1
      rw [← hround] at hnext hready
      rw [PatchDynamics.played, PatchDynamics.played, List.foldl_cons, List.foldl_cons, ← hround]
      exact ih hready hnext hrounds hsteps.2 hothers.2

end Steps

/-- **Independence of schedules.** Take patches with different numbers, idle and with nobody to
deposit forces on them, and register tasks with different computes on them. Play any number of
steps, each by any complete schedule, and any changes of the patches in between. Then the next step
begins on every patch, and there are patches that it ends with, all boxes closed, such that by every
complete schedule the step goes smoothly and ends with them; the integrator hears of each patch of
each task that its forces are final and then that its boxes are closed, once. Running the tasks one
after the other is such a schedule, in whatever order. And other schedules of the steps before would
have made no difference. -/
theorem schedule_independent {specs : List Task} {tasks : List ForceTask} {s₀ s₁ : Assembly}
    (distinct : (s₀.patches.map Patch.id).Nodup) (reached : ∀ p ∈ s₀.patches, p.Reached)
    (idle : ∀ p ∈ s₀.patches, p.openBoxes = 0) (free : ∀ p ∈ s₀.patches, p.forceBox.tasks = [])
    (computes : (specs.map Task.id).Nodup) (working : ∀ t ∈ specs, t.patches ≠ [])
    (registered : specs.mapM ForceTask.register s₀ = (.ok tasks, s₁))
    {past : List (Round × List ComputeId)} (fair : ∀ step ∈ past, Complete tasks step.2)
    (round : Round) :
    let s := played tasks s₁ past
    let begun := round.opened s
    (∀ p ∈ (round.edited s).patches, (p.positionsReady (round.tag p.id)).outcome = .ok ()) ∧
    (∃ ended : List Patch, ended.map Patch.id = s₀.patches.map Patch.id ∧
      (∀ p ∈ ended, p.openBoxes = 0) ∧
      ∀ order, Complete tasks order →
        let turns := (Crew.muster tasks begun).history round.laws round.grid order
        Smooth round.laws round.grid begun.patches tasks turns ended ∧
        (∀ t ∈ tasks, ∀ e ∈ t.endpoints, ∀ p ∈ ended, p.id = e.patch →
          (turns.flatMap Turn.signals).filter (fun signal => signal.patch = p.id) =
            [.forcesReady p.id p.step p.sums, .boxesClosed p.id]) ∧
        (round.played tasks s order).patches = ended) ∧
    (∀ order, order.Perm tasks → Complete tasks (inRow order) ∧
      ∃ counts, order.mapM (fun t => t.run (round.laws t.id) round.grid) begun =
        (.ok counts, round.played tasks s (inRow order))) ∧
    ∀ others : List (Round × List ComputeId), others.map Prod.fst = past.map Prod.fst →
      (∀ step ∈ others, Complete tasks step.2) →
      (played tasks s₁ others).takeSignals.2 = s.takeSignals.2 := by
  intro s begun
  -- the tasks are ready once registered, and so they are after each step
  have hrest : ∀ p ∈ s₀.patches, p.AtRest := fun p hp => (reached p hp).atRest (idle p hp)
  have hregistered :=
    ready_of_registered (enrolled_nil distinct hrest free) computes working registered
  have hready : Ready _ tasks s.patches := hregistered.after fair
  have hequipped : Equipped begun.patches tasks := (hready.edited round).equipped round.tag
  have hended := hready.ended round
  refine ⟨?_, ⟨round.ended tasks s, ?_, ?_, fun order horder => ?_⟩, fun order hperm => ?_, ?_⟩
  · intro p hp
    exact (((hready.edited round).enrolled.resting p hp).positionsReady _).1
  · exact hended.enrolled.named
  · intro p hp
    exact (hended.enrolled.resting p hp).stands.openBoxes_eq
  · have hsmooth := smooth_of_complete round.laws round.grid hequipped rfl horder
    refine ⟨hsmooth, ?_, hready.played round horder⟩
    intro t ht e he p hp hid
    exact hsmooth.heard hp ht he hid
  · exact ⟨complete_inRow hequipped.computes hperm, runs_eq hequipped rfl hperm⟩
  · intro others hrounds hothers
    exact (hregistered.after_congr rfl hrounds fair hothers).symm

/-- A task on two patches and another one on the second of them, by two schedules. -/
theorem schedule_independent_pair :
    let specs : List Task := [⟨⟨5⟩, [⟨0⟩, ⟨1⟩]⟩, ⟨⟨6⟩, [⟨1⟩]⟩]
    let s₀ := Assembly.build ⟨4, 0, true, 4⟩ [⟨0⟩, ⟨1⟩]
    let tasks : List ForceTask :=
      [⟨⟨5⟩, [⟨⟨0⟩, ⟨0, ⟨5⟩, 1⟩, ⟨2, ⟨5⟩, 1⟩⟩, ⟨⟨1⟩, ⟨3, ⟨5⟩, 1⟩, ⟨5, ⟨5⟩, 1⟩⟩]⟩,
        ⟨⟨6⟩, [⟨⟨1⟩, ⟨3, ⟨6⟩, 2⟩, ⟨5, ⟨6⟩, 2⟩⟩]⟩]
    let s₁ := (specs.mapM ForceTask.register s₀).2
    let round : Round :=
      { edits := fun _ =>
          [.editAtoms ⟨0⟩ fun _ => [⟨0, Vec3.zero⟩], .editAtoms ⟨1⟩ fun _ => [⟨1, Vec3.zero⟩]]
        tag := fun _ => 1
        laws := fun _ => SoftSpring.law ⟨1, 1⟩
        grid := Grid.new 2 1 }
    let first : List ComputeId := [⟨5⟩, ⟨6⟩, ⟨5⟩, ⟨6⟩, ⟨5⟩, ⟨5⟩]
    let second : List ComputeId := [⟨6⟩, ⟨5⟩, ⟨5⟩, ⟨5⟩, ⟨5⟩, ⟨6⟩]
    specs.mapM ForceTask.register s₀ = (.ok tasks, s₁) ∧
    Complete tasks first ∧ Complete tasks second ∧
    (let s := played tasks s₁ [(round, first)]
    Smooth round.laws round.grid (round.opened s).patches tasks
      ((Crew.muster tasks (round.opened s)).history round.laws round.grid second)
      (round.played tasks s first).patches) ∧
    (played tasks s₁ [(round, second)]).takeSignals.2 =
      (played tasks s₁ [(round, first)]).takeSignals.2 := by
  intro specs s₀ tasks s₁ round first second
  have registered : specs.mapM ForceTask.register s₀ = (.ok tasks, s₁) := rfl
  have hfirst : Complete tasks first := by decide
  have hsecond : Complete tasks second := by decide
  obtain ⟨-, ⟨ended, -, -, hended⟩, -, hsame⟩ := schedule_independent (by decide)
    (fun p hp => (new_of_build hp).1) (fun p hp => (new_of_build hp).2.1)
    (fun p hp => (new_of_build hp).2.2) (by decide) (by decide) registered
    (List.forall_mem_singleton.mpr hfirst : ∀ step ∈ [(round, first)], Complete tasks step.2) round
  refine ⟨registered, hfirst, hsecond, ?_, hsame _ rfl (List.forall_mem_singleton.mpr hsecond)⟩
  dsimp only
  rw [(hended first hfirst).2.2]
  exact (hended second hsecond).1

end PatchDynamics
