import PatchDynamics.Box

/-!
# Attended boxes

A box whose owner has left standing orders:

* a **check** of deposits, if there is one: a value must have as many entries as the payload;
* **reopenings**: when a cycle closes, the owner opens the next one right away, its payload made
  from the completion, as long as reopenings are left;
* **rivals**: deposits that get in between the admission of another deposit and its check. The first
  rival in the queue waits for a check of its compute's value; it then leaves the queue and makes
  its own deposit, which may in turn let the next rival in.

Every call answers, besides its outcome, the events that it set off, in order.
-/

namespace PatchDynamics

/-- A deposit that gets in before the check of another one. The handle goes by a name. -/
structure Rival (D : Type) where
  /-- the compute whose check it waits for -/
  task : ComputeId
  /-- the name of the handle it uses -/
  handle : String
  /-- the value it deposits -/
  value : D

/-- What happens around an attended box. -/
inductive BoxEvent (D : Type) where
  /-- a cycle closed; the phase is the one the owner sees then -/
  | completed (completion : Completion D) (phase : Phase)
  /-- the owner's own opening of the next cycle returned -/
  | reopened (outcome : Except Refusal Nat)
  /-- a rival's deposit returned; none if its name stands for no handle -/
  | rivalled (outcome : Option (Except Refusal Unit))

/-- A box and its owner's standing orders. -/
structure AttendedBox (P D : Type) where
  /-- the box -/
  box : Box P D
  /-- the check of a deposited value, if there is one -/
  check : Option (ComputeId → P → D → Except Refusal Unit)
  /-- the payload of the cycle that follows a completion -/
  next : Completion D → P
  /-- how many times the owner still opens the next cycle on its own -/
  reopenings : Nat
  /-- the deposits that wait to get in between, first one first -/
  rivals : List (Rival D)

/-- What one call on an attended box does. -/
structure AttendedReply (P D α : Type) where
  /-- what the caller gets -/
  outcome : Except Refusal α
  /-- what happened during the call, in order -/
  events : List (BoxEvent D)
  /-- the box and its orders after the call -/
  attended : AttendedBox P D

namespace AttendedBox

variable {P D α : Type}

/-! ## Completions -/

/-- The owner hears a completion, and opens the next cycle while reopenings are left. -/
def hear (next : Completion D → P) :
    Nat → Completion D → Box P D → List (BoxEvent D) × Nat × Box P D
  | 0, c, b => ([.completed c b.phase], 0, b)
  | left + 1, c, b =>
    let reply := b.publish (next c)
    let (inner, left', b') := match reply.completion with
      | none => ([], left, reply.box)
      | some c' => hear next left c' reply.box
    (.completed c b.phase :: inner ++ [.reopened reply.outcome], left', b')

/-- The reply of a box, with the owner hearing the completion if there is one. -/
def attend (a : AttendedBox P D) (reply : Reply P D α) : AttendedReply P D α :=
  match reply.completion with
  | none => ⟨reply.outcome, [], { a with box := reply.box }⟩
  | some c =>
    let (events, left, b) := hear a.next a.reopenings c reply.box
    ⟨reply.outcome, events, { a with box := b, reopenings := left }⟩

/-! ## Calls -/

/-- Registers a compute. -/
def register (a : AttendedBox P D) (task : ComputeId) : AttendedReply P D Handle :=
  a.attend (a.box.register task)

/-- Gives a handle back. -/
def unregister (a : AttendedBox P D) (h : Handle) : AttendedReply P D Unit :=
  a.attend (a.box.unregister h)

/-- Starts the next cycle. -/
def publish (a : AttendedBox P D) (payload : P) : AttendedReply P D Nat :=
  a.attend (a.box.publish payload)

/-- Ends the cycle of a read box. -/
def close (a : AttendedBox P D) : AttendedReply P D Unit := a.attend a.box.close

/-- Reads the payload. -/
def retrieve (a : AttendedBox P D) (h : Handle) : AttendedReply P D P := a.attend (a.box.retrieve h)

/-- A deposit, given the queue of rivals. `handleOf` finds the handle that a name stands for. -/
def depositAmong (handleOf : String → Option Handle) :
    List (Rival D) → AttendedBox P D → Handle → D → AttendedReply P D Unit
  | rivals, a, h, value =>
    let a := { a with rivals := rivals }
    match a.box.admission h with
    | .error r => ⟨.error r, [], a⟩
    | .ok cycle =>
      match a.check with
      | none => a.attend (a.box.settle h cycle value)
      | some check =>
        let verdict := a.box.judge check h.task value
        let (events, a) : List (BoxEvent D) × AttendedBox P D :=
          match rivals with
          | [] => ([], a)
          | rival :: rest =>
            if rival.task ≠ h.task then ([], a)
            else match handleOf rival.handle with
              | none => ([.rivalled none], { a with rivals := rest })
              | some h' =>
                let inner := depositAmong handleOf rest a h' rival.value
                (inner.events ++ [.rivalled (some inner.outcome)], inner.attended)
        match verdict with
        | .error r => ⟨.error r, events, a⟩
        | .ok () =>
          let reply := a.attend (a.box.settle h cycle value)
          { reply with events := events ++ reply.events }

/-- Deposits a value, the queued rivals getting in between where they can. -/
def deposit (a : AttendedBox P D) (handleOf : String → Option Handle) (h : Handle) (value : D) :
    AttendedReply P D Unit :=
  depositAmong handleOf a.rivals a h value

end AttendedBox

/-! ## Boxes of lists -/

namespace AttendedBox

/-- The check that a list has as many entries as the payload. -/
def sameLength (label : BoxLabel) (task : ComputeId) (payload value : List Float) :
    Except Refusal Unit :=
  if value.length = payload.length then .ok ()
  else .error (.depositLength label task payload.length value.length)

/-- A new box of lists of numbers. With `checked`, deposits must have the length of the payload; a
reopened cycle has the number of the closed one as its payload. -/
def ofLists (serial : Nat) (label : BoxLabel) (mode : BoxMode) (checked : Bool) (reopenings : Nat)
    (rivals : List (Rival (List Float))) : AttendedBox (List Float) (List Float) :=
  { box := Box.new serial label mode
    check := if checked then some (sameLength label) else none
    next := fun c => [(UInt64.ofNat c.cycle).toFloat]
    reopenings := reopenings
    rivals := rivals }

end AttendedBox

end PatchDynamics
