import PatchDynamics.Proofs.Schedule.Enrolled
import PatchDynamics.Proofs.Schedule.Step

/-!
# From one step to the next

Between steps the integrator takes its signals and changes the patches as it likes; then it begins
the next step on all of them. The tasks take their turns, and the patches are at rest again:

* `Edit` — a change of one patch between steps;
* `Round` — all that the integrator decides about a step, and the laws that the tasks follow in it;
* `Ready` — what holds between steps, `Ready.equipped` — what follows for the beginning of the next,
  and `Ready.played` — for the end of it.
-/

namespace PatchDynamics

/-! ## The beginning of a step -/

namespace Patch

variable {p q : Patch}

theorem AtRest.edited (hp : p.AtRest) (h : p.Edited q) : q.AtRest := by
  refine ⟨?_, hp.orderly.touched (.edited h)⟩
  obtain ⟨atoms, averages, fixedAtoms, membershipChanged, rfl⟩ := h
  exact hp.stands.same ⟨rfl, rfl⟩ rfl rfl rfl rfl rfl rfl

/-- A patch and what became of it: the same handles are out, under the same number. -/
structure Continues (p q : Patch) : Prop where
  /-- the number -/
  id : q.id = p.id
  /-- the handles on positions -/
  positions : q.positionBox.handles = p.positionBox.handles
  /-- the handles on forces -/
  forces : q.forceBox.handles = p.forceBox.handles

theorem Continues.trans {r : Patch} (hpq : p.Continues q) (hqr : q.Continues r) : p.Continues r :=
  ⟨hqr.id.trans hpq.id, hqr.positions.trans hpq.positions, hqr.forces.trans hpq.forces⟩

theorem Edited.continues (h : p.Edited q) : p.Continues q := by
  obtain ⟨_, _, _, _, rfl⟩ := h
  exact ⟨rfl, rfl, rfl⟩

/-- **A patch at rest begins its step**. It is in the step if it awaits deposits, and otherwise at
rest again. -/
theorem AtRest.positionsReady (hp : p.AtRest) (tag : UInt32) :
    (p.positionsReady tag).outcome = .ok () ∧ p.Continues (p.positionsReady tag).patch ∧
      (p.forceBox.expected ≠ 0 ∧ (p.positionsReady tag).patch.Begun ∨
        p.forceBox.expected = 0 ∧ (p.positionsReady tag).patch.AtRest) := by
  have horderly := hp.orderly.positionsReady hp.stands tag
  by_cases hnone : p.forceBox.expected = 0
  · rw [positionsReady_of_unattended hp.stands tag hnone] at horderly ⊢
    have hended := (hp.stands.begun tag).ended
      (p.forceBox.unattended ⟨p.id, p.step + 1, p.size⟩) rfl []
    refine ⟨rfl, ⟨rfl, rfl, ?_⟩, .inr ⟨hnone, hended, horderly⟩⟩
    -- without registrations there are no handles, before or after
    have hnil : p.forceBox.registrations = [] := List.eq_nil_of_length_eq_zero hnone
    change (p.forceBox.registrations.map _).map _ = p.forceBox.registrations.map _
    rw [hnil]
    rfl
  · rw [positionsReady_of_attended hp.stands tag hnone]
    exact ⟨rfl, ⟨rfl, rfl, rfl⟩, .inl ⟨hnone, begun_of_stands hp.stands hp.orderly hnone tag⟩⟩

/-! ## The end of a step -/

end Patch

theorem Box.handles_spent {P D : Type} (b : Box P D) : b.spent.handles = b.handles := by
  rw [handles, handles, spent, List.map_map]
  rfl

/-- A box in which all have deposited is in order. -/
theorem Box.Orderly.spent_all {P D : Type} {b : Box P D} (hb : b.Orderly) : b.spent.Orderly where
  nodup := by
    rw [← map_task_handles, handles_spent, map_task_handles]
    exact hb.nodup
  issued := by
    intro r hr
    obtain ⟨s, hs, rfl⟩ := List.mem_map.mp hr
    exact hb.issued s hs
  spent := by
    intro r hr
    obtain ⟨s, -, rfl⟩ := List.mem_map.mp hr
    exact Nat.le_refl _
  unclosed := nofun
  holding := by
    intro r hr hvalue
    obtain ⟨s, -, rfl⟩ := List.mem_map.mp hr
    exact absurd rfl hvalue
  started := nofun
  awaiting := fun _ => ⟨nofun, fun h => absurd h (Nat.lt_irrefl 0)⟩

namespace Patch

variable {p : Patch}

/-- **A patch at the end of its step** is at rest. -/
theorem Begun.stepEnded (hp : p.Begun) (retrievals : Nat)
    (deposits : List (Handle × ForceDeposit)) :
    (p.stepEnded retrievals deposits).AtRest ∧ p.Continues (p.stepEnded retrievals deposits) := by
  have hstands : (p.midStep retrievals []).Stands .opened := by
    refine hp.stands.same ⟨rfl, rfl⟩ rfl rfl rfl ?_ rfl rfl
    rw [midStep, Box.holding_nil]
  have hforces : p.forceBox.spent.standing =
      { (p.midStep retrievals []).forceBox.standing with phase := .idle } := by
    rw [midStep, Box.holding_nil]
    rfl
  have horderly : (p.midStep retrievals []).Orderly := by
    refine ⟨?_, hp.orderly.averages, ?_⟩
    · have hpositions := hp.orderly.positions
      exact ⟨hpositions.1, hpositions.2, hpositions.3, hpositions.4, hpositions.5, hpositions.6,
        hpositions.7⟩
    · rw [midStep, Box.holding_nil]
      exact hp.orderly.forces
  refine ⟨⟨hstands.ended _ hforces _, ?_⟩, rfl, rfl, p.forceBox.handles_spent⟩
  exact horderly.ended hstands.reading hp.orderly.forces.spent_all _

end Patch

/-! ## Between steps -/

/-- A change of one patch between steps. -/
inductive Edit where
  /-- replaces the membership -/
  | replaceAtoms (patch : PatchId) (atoms : List Atom)
  /-- changes the list of atoms -/
  | editAtoms (patch : PatchId) (f : List Atom → List Atom)
  /-- sets the averaged positions -/
  | setAverages (patch : PatchId) (averages : List Atom)
  /-- sets how many of the atoms do not move -/
  | setFixedAtoms (patch : PatchId) (count : Nat)

namespace Assembly

/-- The assembly after a change. A change of a patch that is not there changes nothing. -/
def edit (s : Assembly) : Edit → Assembly
  | .replaceAtoms id atoms => ((s.replaceAtoms id atoms).map Prod.snd).getD s
  | .editAtoms id f => ((s.call id fun p => p.editAtoms f).map Prod.snd).getD s
  | .setAverages id averages => ((s.call id fun p => p.setAverages averages).map Prod.snd).getD s
  | .setFixedAtoms id count =>
    ((s.call id fun p => ⟨.ok (), [], p.setFixedAtoms count⟩).map Prod.snd).getD s

/-- The assembly with a step begun on each patch, with a tag for each. -/
def positionsReady (s : Assembly) (tag : PatchId → UInt32) : Assembly :=
  { s with
    patches := s.patches.map fun p => (p.positionsReady (tag p.id)).patch
    signals := s.signals ++ s.patches.flatMap fun p => (p.positionsReady (tag p.id)).signals }

end Assembly

namespace Enrolled

variable {ids : List PatchId} {held : List Endpoint} {patches : List Patch}

/-- A change that keeps the boxes of a patch. -/
theorem changeFirst {α : Type} (h : Enrolled ids held patches) {change : Patch → α × Patch}
    (hchange : ∀ p ∈ patches, p.Edited (change p).2) {id : PatchId} {a : α} {others : List Patch}
    (hothers : Assembly.changeFirst id change patches = some (a, others)) :
    Enrolled ids held others := by
  by_cases hmem : id ∈ patches.map Patch.id
  · obtain ⟨p, hp, rfl⟩ := List.mem_map.mp hmem
    have hput := Assembly.changeFirst_map (fun q _ => (rfl : (id q).id = q.id)) h.nodup hp change
    rw [List.map_id] at hput
    obtain ⟨-, rfl⟩ := Prod.mk.inj (Option.some.inj (hothers.symm.trans hput))
    have hedited := hchange p hp
    have hcontinues := hedited.continues
    exact h.put hp hcontinues.id ((h.resting p hp).edited hedited)
      (fun g hg => hcontinues.positions ▸ hg) hcontinues.forces
  · rw [Assembly.changeFirst_of_not_mem hmem] at hothers
    cases hothers

/-- A change that is made if its patch is there. -/
theorem getD {α β : Type} {s : Assembly} (h : Enrolled ids held s.patches)
    {result : Option (α × List Patch)} (hresult : ∀ a l, result = some (a, l) → Enrolled ids held l)
    {f : α × List Patch → β × Assembly} (hf : ∀ a l, (f (a, l)).2.patches = l) :
    Enrolled ids held (((result.map f).map Prod.snd).getD s).patches := by
  cases result with
  | none => exact h
  | some pair => exact (hf pair.1 pair.2).symm ▸ hresult pair.1 pair.2 rfl

theorem call {s : Assembly} (h : Enrolled ids held s.patches) {f : Patch → Patch.Reply Unit}
    (hf : ∀ p ∈ s.patches, p.Edited (f p).patch) (id : PatchId) :
    Enrolled ids held (((s.call id f).map Prod.snd).getD s).patches := by
  refine h.getD (fun a others hothers => ?_) fun _ _ => rfl
  exact h.changeFirst hf hothers

/-- **A change between steps** leaves what the patches know of the tasks. -/
theorem edit {s : Assembly} (h : Enrolled ids held s.patches) (e : Edit) :
    Enrolled ids held (s.edit e).patches := by
  cases e with
  | replaceAtoms id atoms =>
    refine h.getD (fun a others hothers => ?_) fun _ _ => rfl
    refine h.changeFirst ?_ hothers
    exact fun p _ => p.edited_replaceAtoms s.directory atoms
  | editAtoms id f => exact h.call (fun p _ => (p.edited_editAtoms f).2) id
  | setAverages id averages => exact h.call (fun p _ => (p.edited_setAverages averages).2) id
  | setFixedAtoms id count => exact h.call (fun p _ => p.edited_setFixedAtoms count) id

theorem edits {s : Assembly} (h : Enrolled ids held s.patches) (edits : List Edit) :
    Enrolled ids held (edits.foldl Assembly.edit s).patches := by
  induction edits generalizing s with
  | nil => exact h
  | cons e edits ih => exact ih (h.edit e)

/-- Patches that know of the same handles as the ones before, and are at rest. -/
theorem map (h : Enrolled ids held patches) {f : Patch → Patch}
    (hf : ∀ p ∈ patches, p.Continues (f p) ∧ (f p).AtRest) : Enrolled ids held (patches.map f) where
  named := by
    rw [List.map_map, ← h.named]
    exact List.map_congr_left fun p hp => (hf p hp).1.id
  distinct := h.distinct
  resting := by
    intro q hq
    obtain ⟨p, hp, rfl⟩ := List.mem_map.mp hq
    exact (hf p hp).2
  present := by
    intro e he
    obtain ⟨p, hp, hid, hmem⟩ := h.present e he
    obtain ⟨hcontinues, -⟩ := hf p hp
    exact ⟨f p, List.mem_map_of_mem hp, hcontinues.id.trans hid, hcontinues.positions ▸ hmem⟩
  handles := by
    intro q hq
    obtain ⟨p, hp, rfl⟩ := List.mem_map.mp hq
    obtain ⟨hcontinues, -⟩ := hf p hp
    rw [hcontinues.forces, hcontinues.id, h.handles p hp]

end Enrolled

/-- All that is decided about a step: by the integrator before it, and by the tasks in it. -/
structure Round where
  /-- the changes before the step, in view of the assembly -/
  edits : Assembly → List Edit
  /-- the tag of each patch -/
  tag : PatchId → UInt32
  /-- the law that each task follows -/
  laws : ComputeId → ForceLaw
  /-- the grid -/
  grid : Grid

namespace Round

/-- The assembly right before the step: the integrator takes its signals and makes its changes. -/
def edited (r : Round) (s : Assembly) : Assembly :=
  (r.edits s.takeSignals.2).foldl Assembly.edit s.takeSignals.2

/-- The assembly at the beginning of the step. -/
def opened (r : Round) (s : Assembly) : Assembly := (r.edited s).positionsReady r.tag

/-- The assembly after the step, with the calls of the tasks by some schedule. -/
def played (r : Round) (tasks : List ForceTask) (s : Assembly) (order : List ComputeId) :
    Assembly :=
  ((Crew.muster tasks (r.opened s)).after r.laws r.grid order).assembly

/-- The patches at the end of the step. -/
def ended (r : Round) (tasks : List ForceTask) (s : Assembly) : List Patch :=
  afterStep r.laws r.grid tasks (r.opened s).patches

/-- What the integrator has heard so far plays no part in what follows. -/
theorem opened_congr (r : Round) {s s' : Assembly} (h : s.takeSignals.2 = s'.takeSignals.2) :
    r.opened s = r.opened s' := by
  rw [opened, opened, edited, edited, h]

end Round

/-- What holds between steps of tasks that work on some patches. -/
structure Ready (ids : List PatchId) (tasks : List ForceTask) (patches : List Patch) : Prop where
  /-- the tasks are different computes -/
  computes : (tasks.map ForceTask.id).Nodup
  /-- each task works on some patch -/
  working : ∀ t ∈ tasks, t.endpoints ≠ []
  /-- the patches know of the tasks and of no other depositors -/
  enrolled : Enrolled ids (tasks.flatMap ForceTask.endpoints) patches

namespace Ready

variable {ids : List PatchId} {tasks : List ForceTask} {s : Assembly}

theorem edited (h : Ready ids tasks s.patches) (r : Round) : Ready ids tasks (r.edited s).patches :=
  ⟨h.computes, h.working, Enrolled.edits (s := s.takeSignals.2) h.enrolled _⟩

/-- A patch that a task works on awaits deposits. -/
theorem awaits (h : Ready ids tasks s.patches) {t : ForceTask} (ht : t ∈ tasks) {e : Endpoint}
    (he : e ∈ t.endpoints) {p : Patch} (hp : p ∈ s.patches) (hid : p.id = e.patch) :
    p.forceBox.expected ≠ 0 := by
  have hheld : e ∈ (tasks.flatMap ForceTask.endpoints).filter fun e => e.patch = p.id :=
    List.mem_filter.mpr ⟨List.mem_flatMap.mpr ⟨t, ht, he⟩, decide_eq_true hid.symm⟩
  have hhandle : e.forces ∈ p.forceBox.handles := by
    rw [h.enrolled.handles p hp]
    exact List.mem_map_of_mem hheld
  intro hnone
  rw [Box.handles, List.eq_nil_of_length_eq_zero hnone] at hhandle
  cases hhandle

/-- **The beginning of a step** on all patches. -/
theorem equipped (h : Ready ids tasks s.patches) (tag : PatchId → UInt32) :
    Equipped (s.positionsReady tag).patches tasks where
  distinct := by
    rw [Assembly.positionsReady, List.map_map]
    have hsame : ∀ p ∈ s.patches, (p.positionsReady (tag p.id)).patch.id = p.id :=
      fun p hp => ((h.enrolled.resting p hp).positionsReady (tag p.id)).2.1.id
    exact (List.map_congr_left hsame).symm ▸ h.enrolled.nodup
  computes := h.computes
  working := h.working
  begun := by
    intro q hq hphase
    obtain ⟨p, hp, rfl⟩ := List.mem_map.mp hq
    obtain ⟨-, -, ⟨-, hbegun⟩ | ⟨-, hrest⟩⟩ := (h.enrolled.resting p hp).positionsReady (tag p.id)
    · exact hbegun
    · rw [hrest.stands.force_phase] at hphase
      cases hphase
  present := by
    intro t ht e he
    obtain ⟨p, hp, hid, hmem⟩ := h.enrolled.present e (List.mem_flatMap.mpr ⟨t, ht, he⟩)
    obtain ⟨-, hcontinues, hcourse⟩ := (h.enrolled.resting p hp).positionsReady (tag p.id)
    refine ⟨_, List.mem_map_of_mem hp, hcontinues.id.trans hid, ?_, hcontinues.positions ▸ hmem⟩
    -- a patch that is at rest again awaits no deposit, but this one awaits the task's
    obtain ⟨-, hbegun⟩ | ⟨hnone, -⟩ := hcourse
    · exact hbegun.stands.force_phase
    · exact absurd hnone (h.awaits ht he hp hid)
  handles := by
    intro q hq
    obtain ⟨p, hp, rfl⟩ := List.mem_map.mp hq
    have hcontinues := ((h.enrolled.resting p hp).positionsReady (tag p.id)).2.1
    rw [hcontinues.forces, hcontinues.id, h.enrolled.handles p hp, endpointsOn]

/-- **The end of a step** on one patch. -/
theorem stepped (h : Ready ids tasks s.patches) (tag : PatchId → UInt32)
    (laws : ComputeId → ForceLaw) (grid : Grid) {p : Patch} (hp : p ∈ s.patches) :
    let q := (p.positionsReady (tag p.id)).patch.afterMoves
      (scripts laws grid (s.positionsReady tag).patches tasks)
    p.Continues q ∧ q.AtRest := by
  have hequipped := h.equipped tag
  have hmem : (p.positionsReady (tag p.id)).patch ∈ (s.positionsReady tag).patches :=
    List.mem_map_of_mem hp
  obtain ⟨-, hcontinues, ⟨-, hbegun⟩ | ⟨-, hrest⟩⟩ :=
    (h.enrolled.resting p hp).positionsReady (tag p.id)
  · have hfull := hequipped.afterMoves_full (.refl (scripts laws grid _ tasks)) hmem
      hbegun.stands.force_phase
    obtain ⟨hrest, hthen⟩ := hbegun.stepEnded (retrievals _ _) (depositsOn _ _)
    rw [← hfull] at hrest hthen
    exact ⟨hcontinues.trans hthen, hrest⟩
  · -- a patch that awaits nothing is at rest already
    have hphase : (p.positionsReady (tag p.id)).patch.forceBox.phase ≠ .opened := by
      simp [hrest.stands.force_phase]
    rw [Patch.afterMoves, if_neg hphase]
    exact ⟨hcontinues, hrest⟩

/-- Tasks that are ready are so for other patches that know of the same handles and are at rest. -/
theorem map {patches : List Patch} (h : Ready ids tasks patches) {f : Patch → Patch}
    (hf : ∀ p ∈ patches, p.Continues (f p) ∧ (f p).AtRest) : Ready ids tasks (patches.map f) :=
  ⟨h.computes, h.working, h.enrolled.map hf⟩

/-- **The end of a step** on all patches. -/
theorem afterStep (h : Ready ids tasks s.patches) (tag : PatchId → UInt32)
    (laws : ComputeId → ForceLaw) (grid : Grid) :
    Ready ids tasks (PatchDynamics.afterStep laws grid tasks (s.positionsReady tag).patches) := by
  rw [PatchDynamics.afterStep, Assembly.positionsReady, List.map_map]
  exact h.map fun p hp => h.stepped tag laws grid hp

/-- **A step** by a complete schedule leads to patches that do not depend on the schedule. -/
theorem played (h : Ready ids tasks s.patches) (r : Round) {order : List ComputeId}
    (horder : Complete tasks order) :
    (r.played tasks s order).patches = r.ended tasks s :=
  patches_after ((h.edited r).equipped r.tag) rfl horder

theorem ended (h : Ready ids tasks s.patches) (r : Round) : Ready ids tasks (r.ended tasks s) :=
  (h.edited r).afterStep r.tag r.laws r.grid

end Ready

end PatchDynamics
