import Mathlib.Data.List.Induction
import PatchDynamics.Patch
import PatchDynamics.Proofs.Box.Calls

/-!
# The protocol of steps

A patch keeps three boxes and a count of the open ones, and the end of a step closes two of the
boxes from inside the completion of the third. This file shows that all of them stay in step,
whatever is called in whatever order:

* `Call`, `perform` — a call on a patch or on one of its boxes, and what the integrator hears of it;
* `Stands` — the invariant: either the patch is at rest, all boxes idle and none counted, or it is
  in a step, and the boxes of the step are open and counted;
* `Touched` — what becomes of a patch by a call that nothing is heard of;
* `Advance` — all that one call can do: nothing, begin a step, end it, or both at once;
* `step_protocol` — what follows for a whole run: the integrator hears of each step that ended,
  once, in order, and of nothing else.
-/

namespace PatchDynamics

namespace Patch

/-! ## Calls -/

/-- One call on a patch or, by the holder of a handle, on one of its boxes. -/
inductive Call where
  /-- registers a compute with one of the boxes -/
  | register (kind : BoxKind) (task : ComputeId)
  /-- gives a handle back to one of the boxes -/
  | unregister (kind : BoxKind) (h : Handle)
  /-- begins the next step -/
  | positionsReady (tag : UInt32)
  /-- reads what one of the boxes holds -/
  | retrieve (kind : BoxKind) (h : Handle)
  /-- deposits forces -/
  | deposit (h : Handle) (d : ForceDeposit)
  /-- deposits into the box of positions -/
  | depositIntoPositions (h : Handle)
  /-- deposits into the box of averaged positions -/
  | depositIntoAverages (h : Handle)
  /-- replaces the membership, in a directory as others have left it -/
  | replaceAtoms (directory : Directory) (atoms : List Atom)
  /-- changes the list of atoms -/
  | editAtoms (f : List Atom → List Atom)
  /-- sets the averaged positions -/
  | setAverages (averages : List Atom)
  /-- sets how many of the atoms do not move -/
  | setFixedAtoms (count : Nat)

/-- What the integrator hears of a call, and the patch after it. -/
def Reply.seen {α : Type} (r : Reply α) : List Signal × Patch := (r.signals, r.patch)

/-- Makes a call: what the integrator hears of it, and the patch after it. -/
def perform (p : Patch) : Call → List Signal × Patch
  | .register kind task => (p.register kind task).seen
  | .unregister kind h => (p.unregister kind h).seen
  | .positionsReady tag => (p.positionsReady tag).seen
  | .retrieve .position h => (p.retrievePositions h).seen
  | .retrieve .avgPosition h => (p.retrieveAverages h).seen
  | .retrieve .force h => (p.retrieveFrame h).seen
  | .deposit h d => (p.deposit h d).seen
  | .depositIntoPositions h => (p.depositIntoPositions h).seen
  | .depositIntoAverages h => (p.depositIntoAverages h).seen
  | .replaceAtoms directory atoms => ([], (replaceAtoms directory p atoms).2.2)
  | .editAtoms f => (p.editAtoms f).seen
  | .setAverages averages => (p.setAverages averages).seen
  | .setFixedAtoms count => ([], p.setFixedAtoms count)

/-- The patch after some calls. -/
def after (p : Patch) (calls : List Call) : Patch := calls.foldl (fun p c => (p.perform c).2) p

/-- What the integrator hears during some calls, in order. -/
def heard : Patch → List Call → List Signal
  | _, [] => []
  | p, c :: rest => (p.perform c).1 ++ heard (p.perform c).2 rest

theorem after_append (p : Patch) (calls more : List Call) :
    p.after (calls ++ more) = (p.after calls).after more := List.foldl_append ..

theorem after_concat (p : Patch) (calls : List Call) (c : Call) :
    p.after (calls ++ [c]) = ((p.after calls).perform c).2 := after_append p calls [c]

@[simp] theorem heard_nil (p : Patch) : p.heard [] = [] := rfl

theorem heard_append (p : Patch) (calls more : List Call) :
    p.heard (calls ++ more) = p.heard calls ++ (p.after calls).heard more := by
  induction calls generalizing p with
  | nil => rfl
  | cons c calls ih =>
    rw [List.cons_append, heard, ih, heard, List.append_assoc]
    rfl

theorem heard_concat (p : Patch) (calls : List Call) (c : Call) :
    p.heard (calls ++ [c]) = p.heard calls ++ ((p.after calls).perform c).1 := by
  rw [heard_append, heard, heard_nil, List.append_nil]

/-! ## The invariant -/

/-- The phases of the three boxes. -/
def phases (p : Patch) : List Phase := [p.positionBox.phase, p.averageBox.phase, p.forceBox.phase]

/-- What holds of a patch between calls, where `phase` is idle at rest and opened in a step: its
boxes stand in that phase at the number of the step, the box of averaged positions only if the patch
publishes them, and the open boxes are counted. -/
structure Stands (p : Patch) (phase : Phase) : Prop where
  /-- a patch is at rest or in a step -/
  resting : phase ≠ .closed
  /-- where the box of positions stands -/
  position : p.positionBox.standing = ⟨⟨p.id, .position⟩, .read, phase, p.step⟩
  /-- where the box of averaged positions stands -/
  average : p.averageBox.standing = ⟨⟨p.id, .avgPosition⟩, .read,
    if p.averaged then phase else .idle, if p.averaged then p.step else 0⟩
  /-- where the box of forces stands -/
  force : p.forceBox.standing = ⟨⟨p.id, .force⟩, .accumulate, phase, p.step⟩
  /-- the open boxes are counted -/
  counted : p.openBoxes = p.phases.count .opened
  /-- the sums are those of the step -/
  summed : p.sums.step = p.step

theorem stands_new (id : PatchId) (serial : Nat) (averaged : Bool) :
    (new id serial averaged).Stands .idle where
  resting := nofun
  position := rfl
  average := by cases averaged <;> rfl
  force := rfl
  counted := rfl
  summed := rfl

namespace Stands

variable {p : Patch} {phase : Phase}

theorem position_mode (h : p.Stands phase) : p.positionBox.mode = .read :=
  congrArg Box.Standing.mode h.position

theorem average_mode (h : p.Stands phase) : p.averageBox.mode = .read :=
  congrArg Box.Standing.mode h.average

theorem force_mode (h : p.Stands phase) : p.forceBox.mode = .accumulate :=
  congrArg Box.Standing.mode h.force

theorem position_phase (h : p.Stands phase) : p.positionBox.phase = phase :=
  congrArg Box.Standing.phase h.position

theorem average_phase (h : p.Stands phase) :
    p.averageBox.phase = if p.averaged then phase else .idle :=
  congrArg Box.Standing.phase h.average

theorem force_phase (h : p.Stands phase) : p.forceBox.phase = phase :=
  congrArg Box.Standing.phase h.force

/-- The number of open boxes: none at rest, two in a step, and a third one for averages. -/
theorem openBoxes_eq (h : p.Stands phase) :
    p.openBoxes = if phase = .opened then if p.averaged then 3 else 2 else 0 := by
  rw [h.counted, phases, h.position_phase, h.average_phase, h.force_phase]
  cases phase <;> cases p.averaged <;> rfl

end Stands

/-! ## The end of a step -/

/-- The patch after a step: the sums are up to date, and every box is closed. -/
def ended (p : Patch) (forces : Box ForceFrame ForceDeposit) (deposits : List ForceDeposit) :
    Patch :=
  { p with
    positionBox := { p.positionBox with phase := .idle }
    averageBox := { p.averageBox with phase := .idle }
    forceBox := forces
    sums := p.sums.addAll deposits
    openBoxes := 0 }

/-- In a step, the boxes that are read from are open and counted, along with the box of forces. -/
structure Reading (p : Patch) : Prop where
  /-- positions are only read -/
  position_mode : p.positionBox.mode = .read
  /-- positions are being read -/
  position_phase : p.positionBox.phase = .opened
  /-- averaged positions are only read -/
  average_mode : p.averageBox.mode = .read
  /-- averaged positions are being read, if they are published -/
  average_phase : p.averageBox.phase = if p.averaged then .opened else .idle
  /-- the open boxes are counted -/
  counted : p.openBoxes = if p.averaged then 3 else 2

theorem Stands.reading {p : Patch} (h : p.Stands .opened) : p.Reading where
  position_mode := h.position_mode
  position_phase := h.position_phase
  average_mode := h.average_mode
  average_phase := h.average_phase
  counted := h.openBoxes_eq

/-- **The end of a step**: when the box of forces completes in a step, the integrator hears that the
forces are final and then that all boxes are closed. -/
theorem afterForces_of_completion {α : Type} {p : Patch} (h : p.Reading)
    {reply : PatchDynamics.Reply ForceFrame ForceDeposit α} {c : Completion ForceDeposit}
    (hc : reply.completion = some c) :
    p.afterForces reply =
      ⟨reply.outcome,
        [.forcesReady p.id c.cycle (p.sums.addAll (c.deposits.map Prod.snd)), .boxesClosed p.id],
        p.ended reply.box (c.deposits.map Prod.snd)⟩ := by
  have hposition := Box.close_of_opened h.position_mode h.position_phase
  have hcount := h.counted
  have haverage := h.average_phase
  cases hopen : p.averaged with
  | true =>
    rw [hopen, if_pos rfl] at hcount haverage
    have hclose := Box.close_of_opened h.average_mode haverage
    simp only [afterForces, hc, endStep, closePositions, hposition, boxClosed, hcount,
      closeAverages, hclose]
    rfl
  | false =>
    rw [hopen, if_neg (by simp)] at hcount haverage
    have hclose := Box.close_of_not_opened h.average_mode (by simp [haverage])
    -- the box of averaged positions is idle as it is
    have hsame : ({ p.averageBox with phase := .idle } : Box (List Atom) Unit) = p.averageBox := by
      rw [← haverage]
    simp only [afterForces, hc, endStep, closePositions, hposition, boxClosed, hcount,
      closeAverages, hclose, Box.refuse, ended, hsame]
    rfl

/-- While the cycle of the box of forces goes on, the integrator hears nothing. -/
theorem afterForces_of_none {α : Type} {p : Patch}
    {reply : PatchDynamics.Reply ForceFrame ForceDeposit α} (hc : reply.completion = none) :
    p.afterForces reply = ⟨reply.outcome, [], { p with forceBox := reply.box }⟩ := by
  simp only [afterForces, hc]

theorem step_addAll (s : ForceSums) (deposits : List ForceDeposit) :
    (s.addAll deposits).step = s.step := by
  induction deposits generalizing s with
  | nil => rfl
  | cons d deposits ih =>
    rw [ForceSums.addAll, List.foldl_cons, ← ForceSums.addAll, ih, ForceSums.add]
    split <;> rfl

theorem Stands.ended {p : Patch} (h : p.Stands .opened) (forces : Box ForceFrame ForceDeposit)
    (hforces : forces.standing = { p.forceBox.standing with phase := .idle })
    (deposits : List ForceDeposit) : (p.ended forces deposits).Stands .idle := by
  have hposition : (p.ended forces deposits).positionBox.standing =
      { p.positionBox.standing with phase := .idle } := rfl
  have haverage : (p.ended forces deposits).averageBox.standing =
      { p.averageBox.standing with phase := .idle } := rfl
  have hforce : (p.ended forces deposits).forceBox.phase = .idle :=
    congrArg Box.Standing.phase hforces
  rw [h.position] at hposition
  rw [h.average] at haverage
  rw [h.force] at hforces
  refine ⟨nofun, hposition, ?_, hforces, ?_, ?_⟩
  · rw [haverage]
    simp only [ite_self]
    rfl
  · rw [phases, hforce]
    rfl
  · exact (step_addAll p.sums deposits).trans h.summed

/-! ## The beginning of a step -/

/-- The patch at the beginning of its next step, before its boxes open. -/
def announced (p : Patch) (tag : UInt32) : Patch :=
  { p with
    announcedNew := tag ≠ 0 || p.membershipChanged
    membershipChanged := false
    step := p.step + 1
    sums := ForceSums.zeros (p.step + 1) p.size
    openBoxes := if p.averaged then 3 else 2 }

/-- The patch at the beginning of its next step, with the boxes of the step open. -/
def begun (p : Patch) (tag : UInt32) : Patch :=
  { p.announced tag with
    positionBox := p.positionBox.start p.atoms
    averageBox := if p.averaged then p.averageBox.start p.averages else p.averageBox
    forceBox := p.forceBox.start ⟨p.id, p.step + 1, p.size⟩ }

theorem Stands.begun {p : Patch} (h : p.Stands .idle) (tag : UInt32) :
    (p.begun tag).Stands .opened := by
  have hposition := p.positionBox.standing_start p.atoms
  have hforce := p.forceBox.standing_start ⟨p.id, p.step + 1, p.size⟩
  rw [h.position] at hposition
  rw [h.force] at hforce
  have haverage : (p.begun tag).averageBox.standing = ⟨⟨p.id, .avgPosition⟩, .read,
      if p.averaged then .opened else .idle, if p.averaged then p.step + 1 else 0⟩ := by
    change (if p.averaged then p.averageBox.start p.averages else p.averageBox).standing = _
    cases hopen : p.averaged with
    | true =>
      rw [if_pos rfl, Box.standing_start, h.average, hopen]
      rfl
    | false =>
      rw [if_neg (by simp), h.average, hopen]
      rfl
  refine ⟨nofun, hposition, haverage, hforce, ?_, rfl⟩
  -- two boxes are open, or three
  have hphase : (p.begun tag).averageBox.phase = if p.averaged then .opened else .idle :=
    congrArg Box.Standing.phase haverage
  rw [phases, hphase]
  change (if p.averaged then 3 else 2) = _
  cases p.averaged <;> rfl

/-- Idle boxes that are read from all open, and then the box of forces is opened. -/
theorem openAll_eq {p : Patch} (hposition : p.positionBox.phase = .idle)
    (hposition' : p.positionBox.mode = .read) (haverage : p.averaged → p.averageBox.phase = .idle)
    (haverage' : p.averageBox.mode = .read) :
    p.openAll = openForces { p with
      positionBox := p.positionBox.start p.atoms
      averageBox := if p.averaged then p.averageBox.start p.averages else p.averageBox } := by
  rw [openAll, Box.publish_of_read p.atoms hposition hposition']
  cases hopen : p.averaged with
  | true =>
    have haverages := Box.publish_of_read p.averages (haverage hopen) haverage'
    simp only [openAverages, haverages]
    rfl
  | false =>
    simp only [openAverages]
    rfl

/-- The box of forces opens and waits, if there is somebody to wait for. -/
theorem openForces_of_attended {p : Patch} (hphase : p.forceBox.phase = .idle)
    (hsome : p.forceBox.expected ≠ 0) :
    p.openForces =
      ⟨.ok (), [], { p with forceBox := p.forceBox.start ⟨p.id, p.step, p.size⟩ }⟩ := by
  rw [openForces, Box.publish_of_idle _ hphase fun _ => hsome, afterForces_of_none rfl]
  rfl

/-- With nobody to wait for, the box of forces ends the step as it opens. -/
theorem openForces_of_unattended {p : Patch} (h : p.Reading) (hphase : p.forceBox.phase = .idle)
    (hmode : p.forceBox.mode = .accumulate) (hnone : p.forceBox.expected = 0) :
    p.openForces =
      ⟨.ok (), [.forcesReady p.id (p.forceBox.cycle + 1) p.sums, .boxesClosed p.id],
        p.ended (p.forceBox.unattended ⟨p.id, p.step, p.size⟩) []⟩ := by
  rw [openForces, Box.publish_of_unattended _ hphase hmode hnone, afterForces_of_completion h rfl]
  rfl

/-- At rest, all boxes but that of forces open without fail. -/
theorem openAll_announced {p : Patch} (h : p.Stands .idle) (tag : UInt32) :
    (p.announced tag).openAll = openForces { p.begun tag with forceBox := p.forceBox } :=
  openAll_eq (p := p.announced tag) h.position_phase h.position_mode
    (fun hopen => h.average_phase.trans (if_pos hopen)) h.average_mode

/-- A patch at rest begins its step with opening all boxes, as far as that goes. -/
theorem positionsReady_of_openForces {p : Patch} (h : p.Stands .idle) (tag : UInt32)
    {reply : Reply Unit} (hok : reply.outcome = .ok ())
    (hreply : openForces { p.begun tag with forceBox := p.forceBox } = reply) :
    p.positionsReady tag = reply := by
  have hfree : (p.neededBoxes.find? fun b => b.2.1 ≠ .idle) = none := by
    rw [neededBoxes, h.position_phase, h.average_phase, h.force_phase]
    cases p.averaged <;> rfl
  have hcount : p.openBoxes = 0 := h.openBoxes_eq
  -- no box refuses to open, so nothing has to be rolled back
  have hopen : (p.announced tag).openAll = reply := (openAll_announced h tag).trans hreply
  rw [positionsReady, hfree]
  dsimp only [announced] at hopen ⊢
  rw [if_neg (by simp [hcount]), hopen, hok]

/-- **The beginning of a step** that awaits deposits. -/
theorem positionsReady_of_attended {p : Patch} (h : p.Stands .idle) (tag : UInt32)
    (hsome : p.forceBox.expected ≠ 0) : p.positionsReady tag = ⟨.ok (), [], p.begun tag⟩ :=
  positionsReady_of_openForces h tag rfl (openForces_of_attended h.force_phase hsome)

/-- With nobody to wait for, the step that has just begun ends. -/
theorem openForces_begun {p : Patch} (h : p.Stands .idle) (tag : UInt32)
    (hnone : p.forceBox.expected = 0) :
    openForces { p.begun tag with forceBox := p.forceBox } =
      ⟨.ok (), [.forcesReady p.id (p.forceBox.cycle + 1) (p.begun tag).sums, .boxesClosed p.id],
        (p.begun tag).ended (p.forceBox.unattended ⟨p.id, p.step + 1, p.size⟩) []⟩ := by
  have hreading := (h.begun tag).reading
  exact openForces_of_unattended ⟨hreading.1, hreading.2, hreading.3, hreading.4, hreading.5⟩
    h.force_phase h.force_mode hnone

/-- **The whole of a step** that awaits no deposit. -/
theorem positionsReady_of_unattended {p : Patch} (h : p.Stands .idle) (tag : UInt32)
    (hnone : p.forceBox.expected = 0) :
    p.positionsReady tag =
      ⟨.ok (), [.forcesReady p.id (p.forceBox.cycle + 1) (p.begun tag).sums, .boxesClosed p.id],
        (p.begun tag).ended (p.forceBox.unattended ⟨p.id, p.step + 1, p.size⟩) []⟩ :=
  positionsReady_of_openForces h tag rfl (openForces_begun h tag hnone)

/-- In a step, no other step begins. -/
theorem positionsReady_of_busy {p : Patch} (h : p.Stands .opened) (tag : UInt32) :
    p.positionsReady tag = p.refuse (.alreadyOpen p.positionBox.label p.positionBox.cycle) := by
  have hbusy : (p.neededBoxes.find? fun b => b.2.1 ≠ .idle) =
      some (p.positionBox.label, .opened, p.positionBox.cycle) := by
    rw [neededBoxes, h.position_phase]
    cases p.averaged <;> rfl
  rw [positionsReady, hbusy]

/-! ## What a call can do -/

/-- A patch and what became of it: its number and whether it publishes averages are settled when it
is made. -/
def Settled (p q : Patch) : Prop := q.id = p.id ∧ q.averaged = p.averaged

theorem Settled.trans {p q r : Patch} (hpq : p.Settled q) (hqr : q.Settled r) : p.Settled r :=
  ⟨hqr.1.trans hpq.1, hqr.2.trans hpq.2⟩

/-- Another patch with the same boxes, in the same step: only lists and marks may differ. -/
def Edited (p q : Patch) : Prop :=
  ∃ atoms averages fixedAtoms membershipChanged,
    q = { p with atoms, averages, fixedAtoms, membershipChanged }

/-- What becomes of a patch by a call that nothing is heard of: at most one box changes, which
stands where it stood, or else only lists and marks do. -/
inductive Touched (p : Patch) : List Signal × Patch → Prop where
  /-- the call is refused -/
  | refused : Touched p ([], p)
  /-- the box of positions changes -/
  | positions {b : Box (List Atom) Unit} (standing : b.standing = p.positionBox.standing)
      (orderly : p.positionBox.Orderly → b.Orderly) (readers : Roster (List ComputeId)) :
      Touched p ([], { p with positionBox := b, readers := readers })
  /-- the box of averaged positions changes -/
  | averages {b : Box (List Atom) Unit} (standing : b.standing = p.averageBox.standing)
      (orderly : p.averageBox.Orderly → b.Orderly) (readers : Roster (List ComputeId)) :
      Touched p ([], { p with averageBox := b, averageReaders := readers })
  /-- the box of forces changes -/
  | forces {b : Box ForceFrame ForceDeposit} (standing : b.standing = p.forceBox.standing)
      (orderly : p.forceBox.Orderly → b.Orderly) (contributors : Roster (List ComputeId)) :
      Touched p ([], { p with forceBox := b, contributors := contributors })
  /-- lists and marks change -/
  | edited {q : Patch} (edited : p.Edited q) : Touched p ([], q)

theorem touched_register (p : Patch) (kind : BoxKind) (task : ComputeId) :
    p.Touched (p.register kind task).seen := by
  cases kind with
  | position =>
    rw [Patch.register]
    split
    · exact .refused
    · exact .positions (p.positionBox.standing_register task) (·.register task) _
  | avgPosition =>
    rw [Patch.register]
    split
    · exact .refused
    · exact .averages (p.averageBox.standing_register task) (·.register task) _
  | force =>
    rw [Patch.register]
    split
    · exact .refused
    · exact .forces (p.forceBox.standing_register task) (·.register task) _

theorem touched_unregister (p : Patch) (kind : BoxKind) (h : Handle) :
    p.Touched (p.unregister kind h).seen := by
  cases kind with
  | position =>
    rw [Patch.unregister]
    split
    · exact .refused
    · exact .positions (p.positionBox.standing_unregister h) (·.unregister h) _
  | avgPosition =>
    rw [Patch.unregister]
    split
    · exact .refused
    · exact .averages (p.averageBox.standing_unregister h) (·.unregister h) _
  | force =>
    rw [Patch.unregister]
    split
    · exact .refused
    · exact .forces (p.forceBox.standing_unregister h) (·.unregister h) _

theorem touched_retrieve (p : Patch) (kind : BoxKind) (h : Handle) :
    p.Touched (p.perform (.retrieve kind h)) := by
  cases kind with
  | position =>
    exact .positions (p.positionBox.standing_retrieve h) (·.retrieve h) p.readers
  | avgPosition =>
    exact .averages (p.averageBox.standing_retrieve h) (·.retrieve h) p.averageReaders
  | force =>
    rw [perform, retrieveFrame, afterForces_of_none (p.forceBox.completion_retrieve h)]
    exact .forces (p.forceBox.standing_retrieve h) (·.retrieve h) p.contributors

theorem edited_self (p : Patch) : p.Edited p :=
  ⟨p.atoms, p.averages, p.fixedAtoms, p.membershipChanged, rfl⟩

theorem edited_replaceAtoms (d : Directory) (p : Patch) (atoms : List Atom) :
    p.Edited (replaceAtoms d p atoms).2.2 := by
  rw [replaceAtoms]
  split
  · exact p.edited_self
  · split
    · exact p.edited_self
    · split
      · exact p.edited_self
      · exact ⟨_, _, _, _, rfl⟩

/-- An edit is refused in a step, and is not heard of. -/
theorem edited_editAtoms (p : Patch) (f : List Atom → List Atom) :
    (p.editAtoms f).signals = [] ∧ p.Edited (p.editAtoms f).patch := by
  rw [editAtoms]
  split
  · exact ⟨rfl, p.edited_self⟩
  · exact ⟨rfl, _, _, _, _, rfl⟩

theorem edited_setAverages (p : Patch) (averages : List Atom) :
    (p.setAverages averages).signals = [] ∧ p.Edited (p.setAverages averages).patch := by
  rw [setAverages]
  split
  · exact ⟨rfl, p.edited_self⟩
  · exact ⟨rfl, _, _, _, _, rfl⟩

theorem edited_setFixedAtoms (p : Patch) (count : Nat) : p.Edited (p.setFixedAtoms count) :=
  ⟨_, _, _, _, rfl⟩

/-- What the integrator hears at the end of a step. -/
def announcement (id : PatchId) (sums : ForceSums) : List Signal :=
  [.forcesReady id sums.step sums, .boxesClosed id]

/-- All that one call can do to a patch at rest or in a step, with what the integrator hears. -/
inductive Advance (p : Patch) : Phase → List Signal × Patch → Prop where
  /-- nothing happens to the step -/
  | stays {phase : Phase} {q : Patch} (settled : p.Settled q) (stands : q.Stands phase)
      (step : q.step = p.step) : Advance p phase ([], q)
  /-- the next step begins -/
  | begins {q : Patch} (settled : p.Settled q) (stands : q.Stands .opened)
      (step : q.step = p.step + 1) : Advance p .idle ([], q)
  /-- the step under way ends -/
  | ends {q : Patch} (settled : p.Settled q) (stands : q.Stands .idle)
      (step : q.step = p.step) : Advance p .opened (announcement p.id q.sums, q)
  /-- the next step begins and ends at once -/
  | passes {q : Patch} (settled : p.Settled q) (stands : q.Stands .idle)
      (step : q.step = p.step + 1) : Advance p .idle (announcement p.id q.sums, q)

namespace Stands

variable {p : Patch} {phase : Phase}

/-- A patch whose boxes stand where the boxes of another stand, in the same step. -/
theorem same (h : p.Stands phase) {q : Patch} (hsettled : p.Settled q) (hstep : q.step = p.step)
    (hposition : q.positionBox.standing = p.positionBox.standing)
    (haverage : q.averageBox.standing = p.averageBox.standing)
    (hforce : q.forceBox.standing = p.forceBox.standing) (hcount : q.openBoxes = p.openBoxes)
    (hsums : q.sums = p.sums) : q.Stands phase := by
  have hphases : q.phases = p.phases := by
    rw [phases, show q.positionBox.phase = p.positionBox.phase from
      congrArg Box.Standing.phase hposition, show q.averageBox.phase = p.averageBox.phase from
      congrArg Box.Standing.phase haverage, show q.forceBox.phase = p.forceBox.phase from
      congrArg Box.Standing.phase hforce, phases]
  refine ⟨h.resting, ?_, ?_, ?_, ?_, ?_⟩
  · rw [hposition, h.position, hsettled.1, hstep]
  · rw [haverage, h.average, hsettled.1, hsettled.2, hstep]
  · rw [hforce, h.force, hsettled.1, hstep]
  · rw [hcount, h.counted, hphases]
  · rw [hsums, h.summed, hstep]

/-- A refused call leaves the patch as it is. -/
theorem stays (h : p.Stands phase) : Advance p phase ([], p) := .stays ⟨rfl, rfl⟩ h rfl

/-- A call that nothing is heard of leaves the step as it is. -/
theorem touched (h : p.Stands phase) {seen : List Signal × Patch} (ht : p.Touched seen) :
    Advance p phase seen := by
  cases ht with
  | refused => exact h.stays
  | positions hb _ _ => exact .stays ⟨rfl, rfl⟩ (h.same ⟨rfl, rfl⟩ rfl hb rfl rfl rfl rfl) rfl
  | averages hb _ _ => exact .stays ⟨rfl, rfl⟩ (h.same ⟨rfl, rfl⟩ rfl rfl hb rfl rfl rfl) rfl
  | forces hb _ _ => exact .stays ⟨rfl, rfl⟩ (h.same ⟨rfl, rfl⟩ rfl rfl rfl hb rfl rfl) rfl
  | edited hedited =>
    obtain ⟨atoms, averages, fixedAtoms, membershipChanged, rfl⟩ := hedited
    exact .stays ⟨rfl, rfl⟩ (h.same ⟨rfl, rfl⟩ rfl rfl rfl rfl rfl rfl) rfl

/-- All calls but two are heard of by nobody. -/
theorem touched_perform (h : p.Stands phase) (c : Call) :
    p.Touched (p.perform c) ∨
      (∃ tag, c = .positionsReady tag) ∨ ∃ handle d, c = .deposit handle d := by
  cases c with
  | positionsReady tag => exact .inr (.inl ⟨tag, rfl⟩)
  | deposit handle d => exact .inr (.inr ⟨handle, d, rfl⟩)
  | register kind task => exact .inl (p.touched_register kind task)
  | unregister kind handle => exact .inl (p.touched_unregister kind handle)
  | retrieve kind handle => exact .inl (p.touched_retrieve kind handle)
  | depositIntoPositions handle =>
    -- nobody deposits into a box that is only read
    obtain ⟨r, hr⟩ := Box.deposit_of_read h.position_mode Box.acceptAll handle ()
    rw [Patch.perform, depositIntoPositions, hr]
    exact .inl .refused
  | depositIntoAverages handle =>
    obtain ⟨r, hr⟩ := Box.deposit_of_read h.average_mode Box.acceptAll handle ()
    rw [Patch.perform, depositIntoAverages, hr]
    exact .inl .refused
  | replaceAtoms directory atoms => exact .inl (.edited (edited_replaceAtoms directory p atoms))
  | editAtoms f =>
    obtain ⟨hquiet, hedited⟩ := p.edited_editAtoms f
    rw [Patch.perform, Reply.seen, hquiet]
    exact .inl (.edited hedited)
  | setAverages averages =>
    obtain ⟨hquiet, hedited⟩ := p.edited_setAverages averages
    rw [Patch.perform, Reply.seen, hquiet]
    exact .inl (.edited hedited)
  | setFixedAtoms count => exact .inl (.edited (p.edited_setFixedAtoms count))

/-- At rest a step begins, and ends at once if it awaits no deposit; in a step nothing happens. -/
theorem positionsReady (h : p.Stands phase) (tag : UInt32) :
    Advance p phase (p.positionsReady tag).seen := by
  cases phase with
  | closed => exact absurd rfl h.resting
  | opened =>
    rw [positionsReady_of_busy h]
    exact h.stays
  | idle =>
    by_cases hnone : p.forceBox.expected = 0
    · rw [positionsReady_of_unattended h tag hnone]
      -- nobody is to deposit, so the step ends as it begins
      have hcycle : p.forceBox.cycle = p.step := congrArg Box.Standing.cycle h.force
      have hended := (h.begun tag).ended (p.forceBox.unattended ⟨p.id, p.step + 1, p.size⟩) rfl []
      rw [hcycle]
      exact .passes (q := (p.begun tag).ended _ []) ⟨rfl, rfl⟩ hended rfl
    · rw [positionsReady_of_attended h tag hnone]
      exact .begins ⟨rfl, rfl⟩ (h.begun tag) rfl

/-- A deposit either leaves the step under way or ends it. -/
theorem deposit (h : p.Stands phase) (handle : Handle) (d : ForceDeposit) :
    Advance p phase (p.deposit handle d).seen := by
  rcases p.forceBox.deposit_standing (fitsFrame p.id) handle d with
    ⟨hc, hs⟩ | ⟨c, hc, hcycle, -, hphase, hs⟩
  · rw [Patch.deposit, afterForces_of_none hc]
    exact .stays ⟨rfl, rfl⟩ (h.same ⟨rfl, rfl⟩ rfl rfl rfl hs rfl rfl) rfl
  -- the cycle is complete, and with it the step under way
  · obtain rfl : phase = .opened := h.force_phase.symm.trans hphase
    rw [Patch.deposit, afterForces_of_completion h.reading hc]
    have hended := h.ended _ hs (c.deposits.map Prod.snd)
    have hstep : c.cycle = (p.sums.addAll (c.deposits.map Prod.snd)).step := by
      rw [hcycle, step_addAll, h.summed]
      exact congrArg Box.Standing.cycle h.force
    rw [hstep]
    exact .ends (q := p.ended _ (c.deposits.map Prod.snd)) ⟨rfl, rfl⟩ hended rfl

/-- **What a call can do** to a patch that stands at rest or in a step. -/
theorem perform (h : p.Stands phase) (c : Call) : Advance p phase (p.perform c) := by
  rcases h.touched_perform c with htouched | ⟨tag, rfl⟩ | ⟨handle, d, rfl⟩
  · exact h.touched htouched
  · exact h.positionsReady tag
  · exact h.deposit handle d

end Stands

/-! ## The boxes in order -/

/-- The three boxes are in order. -/
structure Orderly (p : Patch) : Prop where
  /-- the box of positions -/
  positions : p.positionBox.Orderly
  /-- the box of averaged positions -/
  averages : p.averageBox.Orderly
  /-- the box of forces -/
  forces : p.forceBox.Orderly

theorem orderly_new (id : PatchId) (serial : Nat) (averaged : Bool) :
    (new id serial averaged).Orderly :=
  ⟨Box.orderly_new .., Box.orderly_new .., Box.orderly_new ..⟩

namespace Orderly

variable {p : Patch} {phase : Phase}

theorem ended (ho : p.Orderly) (h : p.Reading) {forces : Box ForceFrame ForceDeposit}
    (hforces : forces.Orderly) (deposits : List ForceDeposit) : (p.ended forces deposits).Orderly :=
  ⟨ho.positions.shut h.position_mode, ho.averages.shut h.average_mode, hforces⟩

/-- A call that nothing is heard of keeps the boxes in order. -/
theorem touched (ho : p.Orderly) {seen : List Signal × Patch} (ht : p.Touched seen) :
    seen.2.Orderly := by
  cases ht with
  | refused => exact ho
  | positions _ hb _ => exact ⟨hb ho.positions, ho.averages, ho.forces⟩
  | averages _ hb _ => exact ⟨ho.positions, hb ho.averages, ho.forces⟩
  | forces _ hb _ => exact ⟨ho.positions, ho.averages, hb ho.forces⟩
  | edited hedited =>
    obtain ⟨atoms, averages, fixedAtoms, membershipChanged, rfl⟩ := hedited
    exact ⟨ho.positions, ho.averages, ho.forces⟩

theorem begun_positions (ho : p.Orderly) (h : p.Stands .idle) (tag : UInt32) :
    (p.begun tag).positionBox.Orderly :=
  ho.positions.start_read p.atoms h.position_phase h.position_mode

theorem begun_averages (ho : p.Orderly) (h : p.Stands .idle) (tag : UInt32) :
    (p.begun tag).averageBox.Orderly := by
  have hphase := h.average_phase
  rw [ite_self] at hphase
  have hopen := ho.averages.start_read p.averages hphase h.average_mode
  change (if p.averaged then p.averageBox.start p.averages else p.averageBox).Orderly
  split
  · exact hopen
  · exact ho.averages

theorem begun (ho : p.Orderly) (h : p.Stands .idle) (tag : UInt32)
    (hsome : p.forceBox.expected ≠ 0) : (p.begun tag).Orderly :=
  ⟨ho.begun_positions h tag, ho.begun_averages h tag,
    ho.forces.start _ h.force_phase fun _ => hsome⟩

theorem positionsReady (ho : p.Orderly) (h : p.Stands phase) (tag : UInt32) :
    (p.positionsReady tag).patch.Orderly := by
  cases phase with
  | closed => exact absurd rfl h.resting
  | opened =>
    rw [positionsReady_of_busy h]
    exact ho
  | idle =>
    by_cases hnone : p.forceBox.expected = 0
    · have hforces := ho.forces.publish ⟨p.id, p.step + 1, p.size⟩
      have hstands := h.begun tag
      rw [Box.publish_of_unattended _ h.force_phase h.force_mode hnone] at hforces
      rw [positionsReady_of_unattended h tag hnone]
      exact ⟨(ho.begun_positions h tag).shut hstands.position_mode,
        (ho.begun_averages h tag).shut hstands.average_mode, hforces⟩
    · rw [positionsReady_of_attended h tag hnone]
      exact ho.begun h tag hnone

theorem deposit (ho : p.Orderly) (h : p.Stands phase) (handle : Handle) (d : ForceDeposit) :
    (p.deposit handle d).patch.Orderly := by
  have hforces := ho.forces.deposit (fitsFrame p.id) handle d
  rcases p.forceBox.deposit_standing (fitsFrame p.id) handle d with
    ⟨hc, -⟩ | ⟨c, hc, -, -, hphase, -⟩
  · rw [Patch.deposit, afterForces_of_none hc]
    exact ⟨ho.positions, ho.averages, hforces⟩
  · obtain rfl : phase = .opened := h.force_phase.symm.trans hphase
    rw [Patch.deposit, afterForces_of_completion h.reading hc]
    exact ho.ended h.reading hforces _

/-- A call keeps the boxes in order. -/
theorem perform (ho : p.Orderly) (h : p.Stands phase) (c : Call) : (p.perform c).2.Orderly := by
  rcases h.touched_perform c with htouched | ⟨tag, rfl⟩ | ⟨handle, d, rfl⟩
  · exact ho.touched htouched
  · exact ho.positionsReady h tag
  · exact ho.deposit h handle d

end Orderly

/-! ## Runs -/

/-- What a run has told the integrator: the sums of each step up to the latest that ended, once and
in order, as the patch had them when the step ended. -/
structure Told (p : Patch) (calls : List Call) (totals : List ForceSums) : Prop where
  /-- the integrator heard of these sums and of nothing else -/
  heard : p.heard calls = totals.flatMap (announcement p.id)
  /-- the steps are numbered in order -/
  numbered : totals.map ForceSums.step = List.range' 1 totals.length
  /-- the patch had these sums at the end of a step -/
  ended : ∀ sums ∈ totals, ∃ early late, calls = early ++ late ∧
    (p.after early).Stands .idle ∧ (p.after early).sums = sums

namespace Told

variable {p : Patch} {calls : List Call} {totals : List ForceSums} {c : Call}

theorem ended_concat (h : p.Told calls totals) {sums : ForceSums} (hsums : sums ∈ totals) :
    ∃ early late, calls ++ [c] = early ++ late ∧
      (p.after early).Stands .idle ∧ (p.after early).sums = sums := by
  obtain ⟨early, late, rfl, hidle, hsame⟩ := h.ended sums hsums
  exact ⟨early, late ++ [c], List.append_assoc .., hidle, hsame⟩

/-- A call that the integrator hears nothing of. -/
theorem quiet (h : p.Told calls totals) (hquiet : ((p.after calls).perform c).1 = []) :
    p.Told (calls ++ [c]) totals where
  heard := by rw [heard_concat, hquiet, List.append_nil, h.heard]
  numbered := h.numbered
  ended := fun _ hsums => h.ended_concat hsums

/-- A call that ends the next step. -/
theorem more (h : p.Told calls totals) {sums : ForceSums}
    (hheard : ((p.after calls).perform c).1 = announcement p.id sums)
    (hidle : (p.after (calls ++ [c])).Stands .idle) (hsums : (p.after (calls ++ [c])).sums = sums)
    (hstep : sums.step = totals.length + 1) : p.Told (calls ++ [c]) (totals ++ [sums]) where
  heard := by
    rw [heard_concat, hheard, h.heard, List.flatMap_append, List.flatMap_singleton]
  numbered := by
    rw [List.map_append, h.numbered, List.length_append, List.length_singleton,
      List.range'_concat, Nat.one_mul, Nat.add_comm 1, ← hstep]
    rfl
  ended := by
    intro s hs
    rcases List.mem_append.mp hs with hs | hs
    · exact h.ended_concat hs
    · rw [List.mem_singleton.mp hs]
      exact ⟨calls ++ [c], [], (List.append_nil _).symm, hidle, hsums⟩

/-- A run tells of two things for each step that ended. -/
theorem length_heard (h : p.Told calls totals) : (p.heard calls).length = 2 * totals.length := by
  have htwo : ∀ l : List ForceSums, (l.flatMap (announcement p.id)).length = 2 * l.length := by
    intro l
    induction l with
    | nil => rfl
    | cons sums l ih =>
      rw [List.flatMap_cons, List.length_append, ih, List.length_cons, Nat.mul_succ, Nat.add_comm]
      rfl
  rw [h.heard, htwo]

/-- A longer run tells of no fewer steps. -/
theorem length_le {late : List Call} {later : List ForceSums} (h : p.Told calls totals)
    (hlater : p.Told (calls ++ late) later) : totals.length ≤ later.length := by
  have hlength := hlater.length_heard
  rw [heard_append, List.length_append, h.length_heard] at hlength
  omega

end Told

/-- **A run of calls** on a patch that was never used: it stands at rest or in a step, the
integrator was told of every step that ended, and a step under way is the next. -/
theorem told_of_stands {p : Patch} (h : p.Stands .idle) (hfirst : p.step = 0) (calls : List Call) :
    ∃ phase totals, (p.after calls).Stands phase ∧ p.Settled (p.after calls) ∧
      p.Told calls totals ∧
      (p.after calls).step = totals.length + (if phase = .opened then 1 else 0) := by
  induction calls using List.reverseRecOn with
  | nil => exact ⟨.idle, [], h, ⟨rfl, rfl⟩, ⟨rfl, rfl, nofun⟩, hfirst⟩
  | append_singleton calls c ih =>
    obtain ⟨phase, totals, hstands, hsettled, htold, hstep⟩ := ih
    have hadvance := hstands.perform c
    rw [after_concat]
    -- by what the last call can have done
    generalize hseen : (p.after calls).perform c = seen at hadvance
    have hheard := congrArg Prod.fst hseen
    have hafter : p.after (calls ++ [c]) = seen.2 := by rw [after_concat, hseen]
    cases hadvance with
    | stays hsame hthen hnext =>
      exact ⟨phase, totals, hthen, hsettled.trans hsame, htold.quiet hheard, hnext.trans hstep⟩
    | begins hsame hthen hnext =>
      exact ⟨.opened, totals, hthen, hsettled.trans hsame, htold.quiet hheard,
        by rw [hnext, hstep]; rfl⟩
    | ends hsame hthen hnext =>
      have hlast : _ = totals.length + 1 := hnext.trans hstep
      refine ⟨.idle, totals ++ [_], hthen, hsettled.trans hsame, htold.more ?_ (hafter ▸ hthen)
        (congrArg Patch.sums hafter) (hthen.summed.trans hlast), ?_⟩
      · rw [hheard, hsettled.1]
      · rw [hlast, List.length_append]
        rfl
    | passes hsame hthen hnext =>
      have hlast : _ = totals.length + 1 := hnext.trans (congrArg (· + 1) hstep)
      refine ⟨.idle, totals ++ [_], hthen, hsettled.trans hsame, htold.more ?_ (hafter ▸ hthen)
        (congrArg Patch.sums hafter) (hthen.summed.trans hlast), ?_⟩
      · rw [hheard, hsettled.1]
      · rw [hlast, List.length_append]
        rfl

/-- **The protocol of steps.** Take a new patch and any run of calls on it. Between calls either all
boxes are idle and none is counted, or the boxes of the step are open and counted; each box that
opens in a step is at the cycle of the step. The integrator has heard, for each step that ended,
that its forces are final and right after that that all boxes are closed, in the order of the steps,
and nothing else. -/
theorem step_protocol (id : PatchId) (serial : Nat) (averaged : Bool) (calls : List Call) :
    let start := new id serial averaged
    let p := start.after calls
    (p.phases = [.idle, .idle, .idle] ∧ p.openBoxes = 0 ∨
      p.phases = [.opened, if averaged then .opened else .idle, .opened] ∧
        p.openBoxes = if averaged then 3 else 2) ∧
    p.openBoxes = p.phases.count .opened ∧
    p.positionBox.cycle = p.step ∧ p.forceBox.cycle = p.step ∧
    p.averageBox.cycle = (if averaged then p.step else 0) ∧
    ∃ totals : List ForceSums,
      start.heard calls =
        totals.flatMap (fun sums => [.forcesReady id sums.step sums, .boxesClosed id]) ∧
      totals.map ForceSums.step = List.range' 1 totals.length ∧
      (∀ sums ∈ totals, ∃ early late, calls = early ++ late ∧
        (start.after early).forceBox.phase = .idle ∧ (start.after early).step = sums.step ∧
        (start.after early).sums = sums) ∧
      ∀ early late, calls = early ++ late → (start.after early).forceBox.phase = .idle →
        0 < (start.after early).step → (start.after early).step ∈ totals.map ForceSums.step := by
  intro start p
  have hstart : start.Stands .idle := stands_new id serial averaged
  obtain ⟨phase, totals, hstands, hsettled, htold, hstep⟩ := told_of_stands hstart rfl calls
  -- whether averages are published was settled when the patch was made
  have haveraged : p.averaged = averaged := hsettled.2
  have hphases : p.phases = [phase, if averaged then phase else .idle, phase] := by
    rw [phases, hstands.position_phase, hstands.average_phase, hstands.force_phase, haveraged]
  have hcount := hstands.openBoxes_eq
  have hcycle : p.averageBox.cycle = if p.averaged then p.step else 0 :=
    congrArg Box.Standing.cycle hstands.average
  rw [haveraged] at hcount hcycle
  refine ⟨?_, hstands.counted, congrArg Box.Standing.cycle hstands.position,
    congrArg Box.Standing.cycle hstands.force, hcycle, totals, htold.heard, htold.numbered, ?_, ?_⟩
  · rw [hphases, hcount]
    cases phase with
    | idle => exact .inl ⟨by rw [ite_self], rfl⟩
    | opened => exact .inr ⟨rfl, rfl⟩
    | closed => exact absurd rfl hstands.resting
  · intro sums hsums
    obtain ⟨early, late, hsplit, hidle, rfl⟩ := htold.ended sums hsums
    exact ⟨early, late, hsplit, hidle.force_phase, hidle.summed.symm, rfl⟩
  · intro early late hsplit hidle hpos
    obtain ⟨phase', totals', hstands', -, htold', hstep'⟩ := told_of_stands hstart rfl early
    have hrest : phase' = .idle := hstands'.force_phase.symm.trans hidle
    have hlength := htold'.length_le (hsplit ▸ htold)
    rw [hrest] at hstep'
    rw [htold.numbered, List.mem_range'_1]
    simp at hstep'
    omega

end Patch

end PatchDynamics
