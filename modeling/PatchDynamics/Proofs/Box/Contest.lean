import PatchDynamics.Box.Attended
import PatchDynamics.Proofs.Box.Completion

/-!
# Deposits that get in between

Between the first look at a handle and the second one stands the check of the value, and while it
runs other deposits get in: through other handles or the same one, from admission to completion, and
with checks of their own that let further ones in.

* `Scrutiny` — what a check does, as a program whose only effect is to deposit; `scrutinize` runs
  it;
* `contend` — a deposit with such a check, its two halves around what the check does;
* `Sight` — what is seen of a run: the calls, and every attempt to deposit at the moment it returns.

A check that only decides makes a deposit the plain one (`contend_decide`), and rivals in the queue
of an attended box are a check that deposits for them (`depositAmong_eq_contend`).
-/

namespace PatchDynamics

namespace Box

variable {P D : Type}

/-! ## Checks that deposit -/

/-- What the check of a deposit does. -/
inductive Scrutiny (P D : Type) where
  /-- it decides -/
  | decide (verdict : Except Refusal Unit)
  /-- it makes a deposit itself. `check` is the check of that one, given the payload, and `next` is
  how it goes on with what the deposit returned -/
  | deposit (h : Handle) (value : D) (check : P → Scrutiny P D)
    (next : Except Refusal Unit → Scrutiny P D)

/-- What is seen of an attempt to deposit when it returns. -/
structure Attempt (D : Type) where
  /-- the handle it went through -/
  handle : Handle
  /-- the value -/
  value : D
  /-- what its check said, if it got as far as that -/
  verdict : Option (Except Refusal Unit)
  /-- what it returned -/
  outcome : Except Refusal Unit
  /-- what the owner heard -/
  completion : Option (Completion D)

/-- How a check went, or a deposit with its check. -/
structure Course (P D : Type) where
  /-- what came of it -/
  outcome : Except Refusal Unit
  /-- the attempts that returned meanwhile, in order -/
  attempts : List (Attempt D)
  /-- the box afterwards -/
  box : Box P D

/-- The second half of a deposit, after a check that went like this. -/
def Course.conclude (checked : Course P D) (h : Handle) (cycle : Nat) (value : D) : Course P D :=
  let reply : Reply P D Unit := match checked.outcome with
    | .error r => checked.box.refuse r
    | .ok () => checked.box.settle h cycle value
  { outcome := reply.outcome
    attempts := checked.attempts ++
      [⟨h, value, some checked.outcome, reply.outcome, reply.completion⟩]
    box := reply.box }

/-- A deposit; `check` is how its check goes against the payload. -/
def contend (b : Box P D) (h : Handle) (value : D) (check : P → Course P D) : Course P D :=
  match b.admission h with
  | .error r => ⟨.error r, [⟨h, value, none, .error r, none⟩], b⟩
  | .ok cycle =>
    let checked : Course P D := match b.payload with
      | none => ⟨.ok (), [], b⟩
      | some payload => check payload
    checked.conclude h cycle value

/-- Runs a check. -/
def scrutinize : Scrutiny P D → Box P D → Course P D
  | .decide verdict, b => ⟨verdict, [], b⟩
  | .deposit h value check next, b =>
    let first := b.contend h value fun payload => scrutinize (check payload) b
    let rest := scrutinize (next first.outcome) first.box
    ⟨rest.outcome, first.attempts ++ rest.attempts, rest.box⟩

/-! ## Runs -/

/-- What is done to a box from outside. -/
inductive Move (P D : Type) where
  /-- a call that is not a deposit -/
  | call (c : Call P D) (other : ∀ check h value, c ≠ .deposit check h value)
  /-- a deposit, and what its check does -/
  | deposit (h : Handle) (value : D) (check : P → Scrutiny P D)

/-- What is seen of a run. -/
inductive Sight (P D : Type) where
  /-- a call that is not a deposit -/
  | call (e : Event P D)
  /-- an attempt to deposit -/
  | attempt (a : Attempt D)

/-- Makes a move: what is seen of it, and the box afterwards. -/
def move (b : Box P D) : Move P D → List (Sight P D) × Box P D
  | .call c _ => ([.call (b.event c)], (b.perform c).box)
  | .deposit h value check =>
    let course := b.contend h value fun payload => scrutinize (check payload) b
    (course.attempts.map .attempt, course.box)

/-- The box after some moves. -/
def afterMoves (b : Box P D) (moves : List (Move P D)) : Box P D :=
  moves.foldl (fun b m => (b.move m).2) b

/-- What is seen of some moves. -/
def sights (b : Box P D) (moves : List (Move P D)) : List (Sight P D) :=
  (trace (fun b m => (b.move m).2) (fun b m => (b.move m).1) b moves).flatten

theorem sights_append (b : Box P D) (moves more : List (Move P D)) :
    b.sights (moves ++ more) = b.sights moves ++ (b.afterMoves moves).sights more := by
  rw [sights, trace_append, List.flatten_append]
  rfl

/-- Registrations come and go only while the box is idle. -/
def RegistersIdle (b : Box P D) (moves : List (Move P D)) : Prop :=
  ∀ early c other late, moves = early ++ .call c other :: late →
    ((b.afterMoves early).event c).registers → (b.afterMoves early).phase = .idle

theorem registersIdle_nil (b : Box P D) : b.RegistersIdle [] := by
  intro early c other late hsplit
  exact absurd hsplit.symm (List.append_ne_nil_of_right_ne_nil _ (List.cons_ne_nil _ _))

/-- It is a matter of one move after the other. -/
theorem registersIdle_cons {b : Box P D} {m : Move P D} {moves : List (Move P D)} :
    b.RegistersIdle (m :: moves) ↔
      (∀ c other, m = .call c other → (b.event c).registers → b.phase = .idle) ∧
        (b.move m).2.RegistersIdle moves := by
  constructor
  · intro hidle
    refine ⟨fun c other hm => hidle [] c other moves (hm ▸ rfl), ?_⟩
    rintro early c other late rfl
    exact hidle (m :: early) c other late rfl
  · rintro ⟨hfirst, hrest⟩ early c other late hsplit
    cases early with
    | nil => exact hfirst c other (List.cons.inj hsplit).1
    | cons m' early =>
      obtain ⟨rfl, htail⟩ := List.cons.inj hsplit
      exact hrest early c other late htail

/-- The handle and the value, if the attempt was accepted. -/
def Attempt.deposit? (a : Attempt D) : Option (Handle × D) :=
  match a.outcome with
  | .ok _ => some (a.handle, a.value)
  | .error _ => none

namespace Sight

/-- The call, if it is one that is not a deposit. -/
def call? : Sight P D → Option (Event P D)
  | .call e => some e
  | .attempt _ => none

/-- The handle and the value, if it is a deposit that was accepted. -/
def deposit? : Sight P D → Option (Handle × D)
  | .call _ => none
  | .attempt a => a.deposit?

/-- What the owner heard. -/
def completion : Sight P D → Option (Completion D)
  | .call e => e.completion
  | .attempt a => a.completion

/-- What was returned is that a cycle is exhausted, and no check said so. -/
def Exhausted : Sight P D → Prop
  | .call e => ∃ label cycle, e.outcome = .error (.cycleExhausted label cycle)
  | .attempt a => ∃ label cycle, a.outcome = .error (.cycleExhausted label cycle) ∧
      a.verdict ≠ some a.outcome

/-- Whether it starts a cycle. -/
def opens : Sight P D → Bool
  | .call e => e.opens
  | .attempt _ => false

/-- Whether it changes the registrations. -/
def registers : Sight P D → Bool
  | .call e => e.registers
  | .attempt _ => false

end Sight

/-- The handles that are out after what was seen, first issued first. -/
def handlesSeen (seen : List (Sight P D)) : List Handle := handlesOut (seen.filterMap Sight.call?)

/-- The deposits that were accepted, in the order of acceptance. -/
def deposited (seen : List (Sight P D)) : List (Handle × D) := seen.filterMap Sight.deposit?

/-- The completions that the owner heard of, in order. -/
def announced (seen : List (Sight P D)) : List (Completion D) := seen.filterMap Sight.completion

/-! ## Rivals -/

/-- A deposit whose check only decides is one that nothing gets in between. -/
theorem contend_decide (b : Box P D) (check : ComputeId → P → D → Except Refusal Unit) (h : Handle)
    (value : D) :
    let course := b.contend h value fun payload =>
      scrutinize (.decide (check h.task payload value)) b
    course.outcome = (b.deposit check h value).outcome ∧
      course.box = (b.deposit check h value).box ∧
      course.attempts.map Attempt.completion = [(b.deposit check h value).completion] := by
  intro course
  unfold course contend deposit judge
  cases b.admission h with
  | error r => exact ⟨rfl, rfl, rfl⟩
  | ok cycle =>
    cases b.payload with
    | none => exact ⟨rfl, rfl, rfl⟩
    | some payload =>
      dsimp only [scrutinize, Course.conclude]
      cases check h.task payload value with
      | error r => exact ⟨rfl, rfl, rfl⟩
      | ok => exact ⟨rfl, rfl, rfl⟩

/-- The check of an attended box while rivals wait to get in. -/
def rivalry (check : ComputeId → P → D → Except Refusal Unit)
    (handleOf : String → Option Handle) : List (Rival D) → Handle → D → P → Scrutiny P D
  | [], h, value, payload => .decide (check h.task payload value)
  | rival :: rest, h, value, payload =>
    if rival.task ≠ h.task then .decide (check h.task payload value)
    else match handleOf rival.handle with
      | none => .decide (check h.task payload value)
      | some h' =>
        .deposit h' rival.value (rivalry check handleOf rest h' rival.value)
          fun _ => .decide (check h.task payload value)

/-- A reply of an attended box, whose owner does not open it again, is how a deposit went. -/
structure Mirrors (reply : AttendedReply P D Unit) (course : Course P D) : Prop where
  /-- it is the same outcome -/
  outcome : reply.outcome = course.outcome
  /-- it is the same box -/
  box : reply.attended.box = course.box
  /-- the owner leaves it at that -/
  reopenings : reply.attended.reopenings = 0

/-- The second half of a deposit on an attended box. -/
theorem mirrors_conclude (a : AttendedBox P D) (hleft : a.reopenings = 0) (checked : Course P D)
    (hbox : a.box = checked.box) (h : Handle) (cycle : Nat) (value : D)
    (events : List (BoxEvent D)) :
    Mirrors
      (match checked.outcome with
      | .error r => ⟨.error r, events, a⟩
      | .ok () =>
        let reply := a.attend (a.box.settle h cycle value)
        { reply with events := events ++ reply.events })
      (checked.conclude h cycle value) := by
  obtain ⟨verdict, attempts, b⟩ := checked
  obtain rfl : a.box = b := hbox
  cases verdict with
  | error r => exact ⟨rfl, rfl, hleft⟩
  | ok =>
    dsimp only [Course.conclude, AttendedBox.attend]
    cases (a.box.settle h cycle value).completion with
    | none => exact ⟨rfl, rfl, hleft⟩
    | some c =>
      dsimp only
      rw [hleft]
      exact ⟨rfl, rfl, rfl⟩

/-- A handle that is refused at the first look lets no rival in. -/
theorem mirrors_refused {a : AttendedBox P D} (hleft : a.reopenings = 0) {h : Handle} {r : Refusal}
    (hadm : a.box.admission h = .error r) (handleOf : String → Option Handle)
    (rivals : List (Rival D)) (value : D) (check : P → Course P D) :
    Mirrors (AttendedBox.depositAmong handleOf rivals a h value) (a.box.contend h value check) := by
  rw [contend, hadm]
  cases rivals with
  | nil =>
    rw [AttendedBox.depositAmong, hadm]
    exact ⟨rfl, rfl, hleft⟩
  | cons rival rest =>
    rw [AttendedBox.depositAmong, hadm]
    exact ⟨rfl, rfl, hleft⟩

/-- **A deposit on an attended box**, with its rivals, is one whose check deposits for them. -/
theorem depositAmong_eq_contend {check : ComputeId → P → D → Except Refusal Unit}
    {handleOf : String → Option Handle} (rivals : List (Rival D)) {a : AttendedBox P D}
    (hcheck : a.check = some check) (hleft : a.reopenings = 0) (hb : a.box.Orderly) (h : Handle)
    (value : D) :
    Mirrors (AttendedBox.depositAmong handleOf rivals a h value)
      (a.box.contend h value fun payload =>
        scrutinize (rivalry check handleOf rivals h value payload) a.box) := by
  induction rivals generalizing a h value with
  | nil =>
    cases hadm : a.box.admission h with
    | error r => exact mirrors_refused hleft hadm handleOf [] value _
    | ok cycle =>
      obtain ⟨-, -, -, hphase, -⟩ := admitted hadm
      obtain ⟨payload, hpayload⟩ := Option.ne_none_iff_exists'.mp (hb.started hphase).2
      rw [AttendedBox.depositAmong, contend]
      simp only [hadm, hcheck, judge, hpayload]
      exact mirrors_conclude { a with rivals := [], check := some check } hleft
        ⟨check h.task payload value, [], a.box⟩ rfl h cycle value []
  | cons rival rest ih =>
    cases hadm : a.box.admission h with
    | error r => exact mirrors_refused hleft hadm handleOf (rival :: rest) value _
    | ok cycle =>
      obtain ⟨-, -, -, hphase, -⟩ := admitted hadm
      obtain ⟨payload, hpayload⟩ := Option.ne_none_iff_exists'.mp (hb.started hphase).2
      rw [AttendedBox.depositAmong, contend]
      simp only [hadm, hcheck, judge, hpayload, rivalry]
      by_cases htask : rival.task = h.task
      · rw [if_neg (Decidable.not_not.mpr htask), if_neg (Decidable.not_not.mpr htask)]
        cases handleOf rival.handle with
        | none =>
          exact mirrors_conclude { a with rivals := rest, check := some check } hleft
            ⟨check h.task payload value, [], a.box⟩ rfl h cycle value [.rivalled none]
        | some h' =>
          -- the rival's own deposit is made on the same box, with the rest of the queue
          have hinner := ih (a := { a with rivals := rival :: rest, check := some check }) rfl hleft
            hb h' rival.value
          exact mirrors_conclude _ hinner.reopenings
            ⟨check h.task payload value, _ ++ [], _⟩ hinner.box h cycle value _
      · rw [if_pos htask, if_pos htask]
        exact mirrors_conclude { a with rivals := rival :: rest, check := some check } hleft
          ⟨check h.task payload value, [], a.box⟩ rfl h cycle value []

end Box

end PatchDynamics
