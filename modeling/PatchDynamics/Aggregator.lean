import PatchDynamics.Failure
import PatchDynamics.Frame

/-!
# Aggregators

An aggregator puts the frames of one quantity together. Every contributor hands in one slice for
each sequence number, in any order; the slice that is the last one expected answers the whole frame.
Frames of different numbers are under way at the same time.

* The first slice of a number fixes the precision and the periodic cell of its frame.
* A delivered number must not start a second frame. The last `history` delivered numbers are
  remembered one by one; of the older ones only the largest is, the **horizon**. A slice that would
  start a frame is refused when its number is remembered, or is not past the horizon.
* A frame under way is not touched by the horizon.
-/

namespace PatchDynamics

/-- A frame under way. -/
structure PendingFrame where
  /-- the slices so far -/
  frame : Frame
  /-- slices to come -/
  remaining : Nat
  deriving Inhabited

/-- The delivered numbers as far as they are remembered. -/
structure DeliveryLog where
  /-- numbers remembered one by one, oldest first -/
  recent : List Nat
  /-- the largest number that was delivered and is not among them -/
  horizon : Option Nat
  deriving DecidableEq, Inhabited, Repr

namespace DeliveryLog

/-- The log before the first delivery. -/
def empty : DeliveryLog := ⟨[], none⟩

/-- Moves the oldest numbers behind the horizon until at most `history` are left. -/
def forget (history : Nat) : List Nat → Option Nat → DeliveryLog
  | [], horizon => ⟨[], horizon⟩
  | old :: rest, horizon =>
    if history < rest.length + 1 then
      forget history rest (some (match horizon with
        | none => old
        | some h => max h old))
    else ⟨old :: rest, horizon⟩

/-- The log after one more delivery. -/
def mark (log : DeliveryLog) (history seq : Nat) : DeliveryLog :=
  forget history (log.recent ++ [seq]) log.horizon

end DeliveryLog

/-- The frames of one quantity. -/
structure Aggregator where
  /-- the quantity -/
  name : String
  /-- how many slices make a frame -/
  expected : Nat
  /-- how many delivered numbers are remembered one by one -/
  history : Nat
  /-- the frames under way, in the order in which they were started -/
  pending : List PendingFrame
  /-- the delivered numbers -/
  delivered : DeliveryLog
  deriving Inhabited

namespace Aggregator

/-- An aggregator without frames. -/
def new (name : String) (expected history : Nat) : Aggregator :=
  ⟨name, expected, history, [], DeliveryLog.empty⟩

/-- An aggregator without frames, if its log can be addressed: the log holds one number more than it
remembers for a moment. -/
def new? (name : String) (expected history : Nat) : Except Failure Aggregator := do
  Failure.ensureAddressable (history + 1) 8
  return new name expected history

/-- The number of frames under way. -/
def pendingCount (a : Aggregator) : Nat := a.pending.length

/-- The largest delivered number that is no longer remembered one by one. -/
def horizon (a : Aggregator) : Option Nat := a.delivered.horizon

/-- The frame under way with this number. -/
def pending? (a : Aggregator) (seq : Nat) : Option PendingFrame :=
  a.pending.find? fun p => p.frame.seq = seq

/-- Refuses a number that must not start a frame. -/
def checkLate (a : Aggregator) (seq : Nat) : Except Refusal Unit :=
  if seq ∈ a.delivered.recent then .error (.alreadyDelivered a.name seq)
  else match a.delivered.horizon with
    | none => .ok ()
    | some h => if seq ≤ h then .error (.expired a.name seq h) else .ok ()

/-- The aggregator with a number delivered. -/
def markDelivered (a : Aggregator) (seq : Nat) : Aggregator :=
  { a with delivered := a.delivered.mark a.history seq }

/-- The frames under way without the one of this number. -/
def without (seq : Nat) (pending : List PendingFrame) : List PendingFrame :=
  pending.filter fun p => p.frame.seq ≠ seq

/-- The frames under way with one of them replaced. -/
def replace (p : PendingFrame) (pending : List PendingFrame) : List PendingFrame :=
  pending.map fun q => if q.frame.seq = p.frame.seq then p else q

/-- A slice of a frame that is under way. -/
def continueFrame (a : Aggregator) (p : PendingFrame) (ids : List ParticleId) (values : List Vec3) :
    Option Frame × Aggregator :=
  let frame := p.frame.append ids values
  let remaining := p.remaining - 1
  if remaining = 0 then
    (some frame, { a.markDelivered frame.seq with pending := without frame.seq a.pending })
  else (none, { a with pending := replace ⟨frame, remaining⟩ a.pending })

/-- A slice that starts a frame. A frame that needs no further slice is delivered at once. -/
def startFrame (a : Aggregator) (seq : Nat) (ids : List ParticleId) (values : List Vec3)
    (precision : Precision) (lattice : Option Lattice) : Option Frame × Aggregator :=
  let frame := (Frame.start seq precision lattice).append ids values
  let remaining := a.expected - 1
  if remaining = 0 then (some frame, a.markDelivered seq)
  else (none, { a with pending := a.pending ++ [⟨frame, remaining⟩] })

/-- Hands in one slice; the frame if the slice was the last one expected. -/
def submit (a : Aggregator) (seq : Nat) (ids : List ParticleId) (values : List Vec3)
    (precision : Precision) (lattice : Option Lattice) :
    Except Refusal (Option Frame) × Aggregator :=
  if ids.length ≠ values.length then (.error (.mismatch seq ids.length values.length), a)
  else match a.pending? seq with
    | some p =>
      let (frame, a) := a.continueFrame p ids values
      (.ok frame, a)
    | none =>
      match a.checkLate seq with
      | .error r => (.error r, a)
      | .ok () =>
        let (frame, a) := a.startFrame seq ids values precision lattice
        (.ok frame, a)

end Aggregator

end PatchDynamics
