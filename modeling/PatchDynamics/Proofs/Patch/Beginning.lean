import PatchDynamics.Proofs.Directory.Replacement
import PatchDynamics.Proofs.Patch.Protocol

/-!
# The beginning of a step

Three looks guard the beginning of a step: at the phases of the boxes, at the count of open ones,
and once more at each box as it opens. The first look decides. By the time the boxes open, none of
them can refuse, though the last of them may end the step there and then.

* `Entry`, `history` — what is seen of each call of a run: the call, and whether it was done;
* `Unannounced` — by what was seen, the membership was replaced since the latest step began;
  `Remembers` is the invariant that the mark of a patch says so;
* `Begins` — what the beginning of a step does to a patch.

The main statement is `beginning_exact`.
-/

namespace PatchDynamics

namespace Patch

/-! ## What is seen of a run -/

/-- Whether a call does what it is asked to. -/
def does (p : Patch) : Call → Bool
  | .register kind task => (p.register kind task).outcome.isOk
  | .unregister kind h => (p.unregister kind h).outcome.isOk
  | .positionsReady tag => (p.positionsReady tag).outcome.isOk
  | .retrieve .position h => (p.retrievePositions h).outcome.isOk
  | .retrieve .avgPosition h => (p.retrieveAverages h).outcome.isOk
  | .retrieve .force h => (p.retrieveFrame h).outcome.isOk
  | .deposit h d => (p.deposit h d).outcome.isOk
  | .depositIntoPositions h => (p.depositIntoPositions h).outcome.isOk
  | .depositIntoAverages h => (p.depositIntoAverages h).outcome.isOk
  | .replaceAtoms directory atoms => (replaceAtoms directory p atoms).1.isOk
  | .editAtoms f => (p.editAtoms f).outcome.isOk
  | .setAverages averages => (p.setAverages averages).outcome.isOk
  | .setFixedAtoms _ => true

/-- What is seen of a call. -/
structure Entry where
  /-- the call -/
  call : Call
  /-- whether it was done -/
  done : Bool

namespace Entry

/-- Whether the membership was replaced. -/
def replaces (e : Entry) : Bool :=
  match e.call with
  | .replaceAtoms _ _ => e.done
  | _ => false

/-- Whether a step began. -/
def begins (e : Entry) : Bool :=
  match e.call with
  | .positionsReady _ => e.done
  | _ => false

end Entry

/-- What is seen of a call on this patch. -/
def entry (p : Patch) (c : Call) : Entry := ⟨c, p.does c⟩

/-- What is seen of each of some calls, in order. -/
def history : Patch → List Call → List Entry := trace (fun p c => (p.perform c).2) entry

theorem history_concat (p : Patch) (calls : List Call) (c : Call) :
    p.history (calls ++ [c]) = p.history calls ++ [(p.after calls).entry c] :=
  trace_append p calls [c]

/-- The membership was replaced, and no step has begun since. -/
def Unannounced (seen : List Entry) : Prop :=
  Since (fun e => e.replaces) (fun e => ¬ e.begins) seen

/-! ## What a patch remembers -/

/-- The mark of a patch says whether its membership was replaced since the latest step began. -/
def Remembers (p : Patch) (seen : List Entry) : Prop :=
  p.membershipChanged = true ↔ Unannounced seen

theorem remembers_new (id : PatchId) (serial : Nat) (averaged : Bool) :
    (new id serial averaged).Remembers [] := ⟨nofun, fun hnone => absurd hnone not_since_nil⟩

variable {p : Patch} {phase : Phase} {seen : List Entry}

/-- Nothing but a replacement and a beginning touches the mark. -/
theorem membershipChanged_perform (h : p.Stands phase) {c : Call}
    (hreplaces : ∀ d atoms, c ≠ .replaceAtoms d atoms) (hbegins : ∀ tag, c ≠ .positionsReady tag) :
    (p.perform c).2.membershipChanged = p.membershipChanged := by
  cases c with
  | register kind task => cases kind <;> (rw [perform, register]; split <;> rfl)
  | unregister kind handle => cases kind <;> (rw [perform, unregister]; split <;> rfl)
  | positionsReady tag => exact absurd rfl (hbegins tag)
  | retrieve kind handle =>
    cases kind with
    | position => rfl
    | avgPosition => rfl
    | force =>
      rw [perform, retrieveFrame, afterForces_of_none (p.forceBox.completion_retrieve handle)]
      rfl
  | deposit handle d =>
    rcases p.forceBox.deposit_standing (fitsFrame p.id) handle d with
      ⟨hnone, -⟩ | ⟨c, hdone, -, -, hphase, -⟩
    · rw [perform, deposit, afterForces_of_none hnone]
      rfl
    · obtain rfl : phase = .opened := h.force_phase.symm.trans hphase
      rw [perform, deposit, afterForces_of_completion h.reading hdone]
      rfl
  | depositIntoPositions handle => rfl
  | depositIntoAverages handle => rfl
  | replaceAtoms d atoms => exact absurd rfl (hreplaces d atoms)
  | editAtoms f =>
    rw [perform, editAtoms]
    split <;> rfl
  | setAverages averages =>
    rw [perform, setAverages]
    split <;> rfl
  | setFixedAtoms count => rfl

namespace Remembers

/-- An entry that neither replaces the membership nor begins a step, and leaves the mark. -/
theorem quiet (hp : p.Remembers seen) {q : Patch} {e : Entry} (hreplaces : e.replaces = false)
    (hbegins : e.begins = false) (hsame : q.membershipChanged = p.membershipChanged) :
    q.Remembers (seen ++ [e]) := by
  rw [Remembers, hsame, Unannounced, since_concat, ← Unannounced, ← show _ ↔ _ from hp]
  simp [hreplaces, hbegins]

/-- A replacement that succeeds sets the mark, and one that fails leaves it. -/
theorem replaceAtoms (hp : p.Remembers seen) (d : Directory) (atoms : List Atom) :
    (p.perform (.replaceAtoms d atoms)).2.Remembers
      (seen ++ [p.entry (.replaceAtoms d atoms)]) := by
  have hreplacement := replacement d p atoms
  change (Patch.replaceAtoms d p atoms).2.2.Remembers
    (seen ++ [⟨.replaceAtoms d atoms, (Patch.replaceAtoms d p atoms).1.isOk⟩])
  generalize Patch.replaceAtoms d p atoms = reply at hreplacement
  cases hreplacement with
  | replaced =>
    refine ⟨fun _ => ?_, fun _ => rfl⟩
    rw [Unannounced, since_concat]
    exact .inl rfl
  | _ => exact hp.quiet rfl rfl rfl

/-- A beginning clears the mark, and one that is refused leaves it. -/
theorem positionsReady (hp : p.Remembers seen) (h : p.Stands phase) (tag : UInt32) :
    (p.perform (.positionsReady tag)).2.Remembers (seen ++ [p.entry (.positionsReady tag)]) := by
  change (p.positionsReady tag).patch.Remembers
    (seen ++ [⟨.positionsReady tag, (p.positionsReady tag).outcome.isOk⟩])
  cases phase with
  | closed => exact absurd rfl h.resting
  | opened =>
    rw [positionsReady_of_busy h]
    exact hp.quiet rfl rfl rfl
  | idle =>
    obtain ⟨signals, q, hready, hmark⟩ : ∃ signals q,
        p.positionsReady tag = ⟨.ok (), signals, q⟩ ∧ q.membershipChanged = false := by
      by_cases hnone : p.forceBox.expected = 0
      · exact ⟨_, _, positionsReady_of_unattended h tag hnone, rfl⟩
      · exact ⟨_, _, positionsReady_of_attended h tag hnone, rfl⟩
    rw [hready, Remembers, hmark, Unannounced, since_concat]
    simp [Entry.replaces, Entry.begins, Except.isOk, Except.toBool]

/-- **One call is remembered** if it replaces the membership, until a step begins. -/
theorem perform (hp : p.Remembers seen) (h : p.Stands phase) (c : Call) :
    (p.perform c).2.Remembers (seen ++ [p.entry c]) := by
  by_cases hreplaces : ∃ d atoms, c = .replaceAtoms d atoms
  · obtain ⟨d, atoms, rfl⟩ := hreplaces
    exact hp.replaceAtoms d atoms
  by_cases hbegins : ∃ tag, c = .positionsReady tag
  · obtain ⟨tag, rfl⟩ := hbegins
    exact hp.positionsReady h tag
  simp only [not_exists] at hreplaces hbegins
  have hsame := membershipChanged_perform h hreplaces hbegins
  refine hp.quiet ?_ ?_ hsame
  · cases c with
    | replaceAtoms d atoms => exact absurd rfl (hreplaces d atoms)
    | _ => rfl
  · cases c with
    | positionsReady tag => exact absurd rfl (hbegins tag)
    | _ => rfl

end Remembers

/-- **A run is remembered** by the mark of the patch. -/
theorem remembers_after (id : PatchId) (serial : Nat) (averaged : Bool) (calls : List Call) :
    ((new id serial averaged).after calls).Remembers ((new id serial averaged).history calls) := by
  induction calls using List.reverseRecOn with
  | nil => exact remembers_new id serial averaged
  | append_singleton calls c ih =>
    obtain ⟨phase, -, hstands, -⟩ := told_of_stands (stands_new id serial averaged) rfl calls
    rw [after_concat, history_concat]
    exact ih.perform hstands c

/-! ## Beginnings -/

/-- What the beginning of a step does to a patch, after what was seen. -/
structure Begins (p : Patch) (tag : UInt32) (seen : List Entry) (q : Patch) : Prop where
  /-- one more step is counted -/
  step : q.step = p.step + 1
  /-- new atoms are announced, if the tag says so or the membership was replaced -/
  announced : q.hasNewAtoms = true ↔ tag ≠ 0 ∨ Unannounced seen
  /-- the box of positions was opened once, with the atoms -/
  positions : q.positionBox.cycle = p.positionBox.cycle + 1 ∧
    q.positionBox.payload = some p.atoms
  /-- so was the box of averaged positions, if the step needs it -/
  averages : if p.averaged then
      q.averageBox.cycle = p.averageBox.cycle + 1 ∧ q.averageBox.payload = some p.averages
    else q.averageBox = p.averageBox
  /-- and the box of forces, with the numbers that deposits have to fit -/
  forces : q.forceBox.cycle = p.forceBox.cycle + 1 ∧
    q.forceBox.payload = some ⟨p.id, p.step + 1, p.size⟩

/-- What a patch announces that begins its step. -/
theorem Remembers.announced (hp : p.Remembers seen) (tag : UInt32) :
    (p.announced tag).hasNewAtoms = true ↔ tag ≠ 0 ∨ Unannounced seen := by
  rw [← show _ ↔ _ from hp]
  simp [hasNewAtoms, Patch.announced]

/-- The boxes of a step open, and stay open. -/
theorem begins_begun (hp : p.Remembers seen) (tag : UInt32) : p.Begins tag seen (p.begun tag) where
  step := rfl
  announced := hp.announced tag
  positions := ⟨rfl, rfl⟩
  averages := by
    cases hopen : p.averaged with
    | true => simp [begun, hopen, Box.start]
    | false => simp [begun, hopen, Patch.announced]
  forces := ⟨rfl, rfl⟩

/-- The boxes of a step open, and the box of forces closes them all since nobody is to deposit. -/
theorem begins_ended (hp : p.Remembers seen) (h : p.Stands .idle) (tag : UInt32) :
    p.Begins tag seen
      ((p.begun tag).ended (p.forceBox.unattended ⟨p.id, p.step + 1, p.size⟩) []) where
  step := rfl
  announced := hp.announced tag
  positions := ⟨rfl, rfl⟩
  averages := by
    have haverages := (begins_begun hp tag).averages
    have hphase := h.average_phase
    rw [ite_self] at hphase
    cases hopen : p.averaged with
    | true =>
      rw [hopen] at haverages
      exact haverages
    | false =>
      -- a box that was not opened is idle as it is
      rw [hopen, if_neg (by simp)] at haverages
      rw [if_neg (by simp), ended, haverages, ← hphase]
  forces := ⟨rfl, rfl⟩

/-- **A step begins** at rest, whether or not it awaits deposits. -/
theorem Stands.begins (h : p.Stands .idle) (hp : p.Remembers seen) (tag : UInt32) :
    (p.positionsReady tag).outcome = .ok () ∧
      p.Begins tag seen (p.positionsReady tag).patch := by
  by_cases hnone : p.forceBox.expected = 0
  · rw [positionsReady_of_unattended h tag hnone]
    exact ⟨rfl, begins_ended hp h tag⟩
  · rw [positionsReady_of_attended h tag hnone]
    exact ⟨rfl, begins_begun hp tag⟩

/-- **No box refuses to open** at rest. -/
theorem Stands.opens (h : p.Stands .idle) (tag : UInt32) :
    (p.announced tag).openAll.outcome = .ok () := by
  rw [openAll_announced h tag]
  by_cases hnone : p.forceBox.expected = 0
  · rw [openForces_begun h tag hnone]
  · exact congrArg Reply.outcome (openForces_of_attended
      (p := { p.begun tag with forceBox := p.forceBox }) h.force_phase hnone)

/-- **A step begins exactly between steps.** Take a new patch, any run of calls on it, and any tag.

* The beginning of a step is done exactly if no box is open.
* If it is done, one more step is counted, every box that the step needs was opened once, and new
  atoms are announced exactly if the tag says so or the membership was replaced since the latest
  beginning that was done.
* If it is refused, then since the box of positions is open in the step under way, and the patch is
  as it was and the integrator hears nothing.
* Once the guards have let it pass, no box refuses to open, so that nothing is ever rolled back. -/
theorem beginning_exact (id : PatchId) (serial : Nat) (averaged : Bool) (calls : List Call)
    (tag : UInt32) :
    let start := new id serial averaged
    let p := start.after calls
    let reply := p.positionsReady tag
    (reply.outcome = .ok () ↔ p.openBoxes = 0) ∧
    (reply.outcome = .ok () → p.Begins tag (start.history calls) reply.patch) ∧
    (∀ r, reply.outcome = .error r →
      r = .alreadyOpen ⟨id, .position⟩ p.step ∧ reply.patch = p ∧ reply.signals = []) ∧
    (p.openBoxes = 0 → (p.announced tag).openAll.outcome = .ok ()) := by
  intro start p reply
  obtain ⟨phase, -, hstands, hsettled, -⟩ :=
    told_of_stands (stands_new id serial averaged) rfl calls
  have hp : p.Remembers (start.history calls) := remembers_after id serial averaged calls
  have hcount := hstands.openBoxes_eq
  cases phase with
  | closed => exact absurd rfl hstands.resting
  | idle =>
    obtain ⟨hok, hbegins⟩ := hstands.begins hp tag
    refine ⟨⟨fun _ => hcount, fun _ => hok⟩, fun _ => hbegins, fun r he => ?_,
      fun _ => hstands.opens tag⟩
    cases hok.symm.trans he
  | opened =>
    have hopen : p.openBoxes ≠ 0 := by
      rw [hcount, if_pos rfl]
      split <;> nofun
    have hrefused : reply = p.refuse (.alreadyOpen p.positionBox.label p.positionBox.cycle) :=
      positionsReady_of_busy hstands tag
    have hlabel : p.positionBox.label = ⟨id, .position⟩ := by
      rw [← show p.id = id from hsettled.1]
      exact congrArg Box.Standing.label hstands.position
    have hcycle : p.positionBox.cycle = p.step := congrArg Box.Standing.cycle hstands.position
    rw [hlabel, hcycle] at hrefused
    rw [hrefused]
    refine ⟨⟨nofun, fun hclosed => absurd hclosed hopen⟩, nofun, fun r he => ?_,
      fun hclosed => absurd hclosed hopen⟩
    exact ⟨(Except.error.inj he).symm, rfl, rfl⟩

end Patch

end PatchDynamics
