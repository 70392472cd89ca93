import Std.Data.HashMap
import PatchDynamics.Box
import PatchDynamics.Roster

/-!
# Boxes with a table of slots

A box keeps what it knows of its computes in two places:

* the **roster** of the computes, for their order and their number;
* a **table** with a slot for each of them: the token of its handle, the cycle in which the handle
  was last spent, and a deposited value.

A registration enters the compute in the roster first and in the table after that, and a handle
given back takes it out of the table first. A deposit only looks at the table. A completion goes
down the roster and takes the values out of the slots.

`Box` has one list of registrations in place of the two. It is the same box as long as the two
agree.
-/

namespace PatchDynamics

/-- What the table keeps of a registration. -/
structure BoxSlot (D : Type) where
  /-- the token of the handle -/
  token : Nat
  /-- the cycle in which the handle was last spent, zero before the first -/
  lastCycle : Nat
  /-- a deposited value that no completion has taken -/
  value : Option D

namespace BoxSlot

variable {D : Type}

/-- The slot without its value. -/
def emptied (slot : BoxSlot D) : BoxSlot D := { slot with value := none }

/-- The slot with the handle spent in a cycle and its value kept. -/
def spent (cycle : Nat) (value : D) (slot : BoxSlot D) : BoxSlot D :=
  { slot with lastCycle := cycle, value := some value }

end BoxSlot

/-- A table of slots. -/
abbrev SlotTable (D : Type) := Std.HashMap ComputeId (BoxSlot D)

namespace SlotTable

variable {D : Type}

/-- The values in the slots of some computes, and the table without these values. -/
def takeValues : List ComputeId → SlotTable D → List (ComputeId × D) × SlotTable D
  | [], slots => ([], slots)
  | id :: ids, slots =>
    let taken := slots[id]?.bind BoxSlot.value
    let (others, slots) := takeValues ids (slots.modify id BoxSlot.emptied)
    match taken with
    | none => (others, slots)
    | some value => ((id, value) :: others, slots)

end SlotTable

/-- One owner's box, with payloads of type `P`, deposits of type `D`, and a roster on a set of type
`σ`. -/
structure SlottedBox (σ P D : Type) where
  /-- the number that tells this box from all others -/
  serial : Nat
  /-- the owner, and what the box carries -/
  label : BoxLabel
  /-- how consumers use the box -/
  mode : BoxMode
  /-- where the box stands -/
  phase : Phase
  /-- the number of the latest cycle, zero before the first -/
  cycle : Nat
  /-- deposits to come in this cycle, as counted from its opening -/
  remaining : Nat
  /-- retrievals in the latest cycle -/
  retrievals : Nat
  /-- the computes in the order of registration -/
  computes : Roster σ
  /-- what is known of each of them -/
  slots : SlotTable D
  /-- the payload of the latest cycle -/
  payload : Option P
  /-- the token of the next registration -/
  nextToken : Nat

namespace SlottedBox

/-- What one call on a box does. -/
structure Reply (σ P D α : Type) where
  /-- what the caller gets -/
  outcome : Except Refusal α
  /-- what the owner hears, if the call closed a cycle -/
  completion : Option (Completion D)
  /-- the box after the call -/
  box : SlottedBox σ P D

variable {σ P D : Type} [IndexSet σ ComputeId]

/-- A new box: idle, nobody registered, no cycle yet. -/
def new (serial : Nat) (label : BoxLabel) (mode : BoxMode) : SlottedBox σ P D :=
  { serial, label, mode
    phase := .idle
    cycle := 0
    remaining := 0
    retrievals := 0
    computes := Roster.empty
    slots := ∅
    payload := none
    nextToken := 1 }

/-- The number of deposits that the next cycle waits for. -/
def expected (b : SlottedBox σ P D) : Nat := b.computes.size

/-- A call that is refused and changes nothing. -/
def refuse {α : Type} (b : SlottedBox σ P D) (r : Refusal) : Reply σ P D α := ⟨.error r, none, b⟩

/-- The slot that a handle stands for. -/
def slot? (b : SlottedBox σ P D) (h : Handle) : Option (BoxSlot D) :=
  if h.box = b.serial then b.slots[h.task]?.filter (·.token = h.token) else none

/-- Registers a compute and issues its handle. -/
def register (b : SlottedBox σ P D) (task : ComputeId) : Reply σ P D Handle :=
  let (inserted, computes) := b.computes.insert task
  let b := { b with computes }
  if inserted then
    { outcome := .ok ⟨b.serial, task, b.nextToken⟩
      completion := none
      box := { b with
        slots := b.slots.insert task ⟨b.nextToken, 0, none⟩
        nextToken := b.nextToken + 1 } }
  else b.refuse (.alreadyRegistered b.label task)

/-- Gives a handle back. The slot goes, with a value that it may hold. -/
def unregister (b : SlottedBox σ P D) (h : Handle) : Reply σ P D Unit :=
  match b.slot? h with
  | none => b.refuse (.unknownHandle b.label h.task)
  | some _ =>
    { outcome := .ok ()
      completion := none
      box := { b with
        slots := b.slots.erase h.task
        computes := (b.computes.remove h.task).2 } }

/-- Lets the owner hear of the cycle that just closed: the box is idle at that moment. -/
def finish {α : Type} (b : SlottedBox σ P D) (cycle : Nat) (deposits : List (ComputeId × D))
    (a : α) : Reply σ P D α :=
  { outcome := .ok a
    completion := some ⟨b.label, cycle, deposits, b.retrievals⟩
    box := { b with phase := .idle } }

/-- Publishes a payload and starts the next cycle; the number of that cycle. An accumulate box that
waits for no deposit closes it at once. -/
def publish (b : SlottedBox σ P D) (payload : P) : Reply σ P D Nat :=
  if b.phase ≠ .idle then b.refuse (.alreadyOpen b.label b.cycle)
  else
    let opened := { b with
      phase := .opened
      cycle := b.cycle + 1
      remaining := b.expected
      retrievals := 0
      payload := some payload }
    if b.mode = .accumulate ∧ b.expected = 0 then
      { opened with phase := .closed }.finish opened.cycle [] opened.cycle
    else ⟨.ok opened.cycle, none, opened⟩

/-- Ends the cycle of a read box, whether or not everybody has read. -/
def close (b : SlottedBox σ P D) : Reply σ P D Unit :=
  if b.mode = .accumulate then b.refuse (.closedByDeposits b.label)
  else if b.phase ≠ .opened then b.refuse (.notOpen b.label)
  else { b with phase := .closed }.finish b.cycle [] ()

/-- The payload of the cycle under way. -/
def retrieve (b : SlottedBox σ P D) (h : Handle) : Reply σ P D P :=
  match b.slot? h with
  | none => b.refuse (.unknownHandle b.label h.task)
  | some _ =>
    if b.phase ≠ .opened then b.refuse (.notOpen b.label)
    else match b.payload with
      | none => b.refuse (.notOpen b.label)
      | some payload => ⟨.ok payload, none, { b with retrievals := b.retrievals + 1 }⟩

/-- Whether a handle may deposit now, and into which cycle. -/
def admission (b : SlottedBox σ P D) (h : Handle) : Except Refusal Nat :=
  match b.slot? h with
  | none => .error (.unknownHandle b.label h.task)
  | some slot =>
    if b.mode = .read then .error (.wrongMode b.label h.task)
    else if b.cycle ≠ 0 ∧ slot.lastCycle = b.cycle then
      .error (.doubleUse b.label h.task b.cycle)
    else if b.phase ≠ .opened then .error (.notOpen b.label)
    else .ok b.cycle

/-- Counts a kept deposit. One that no count is left for is refused, though its value is kept; the
last one closes the cycle. -/
def countDown (b : SlottedBox σ P D) (cycle : Nat) : Reply σ P D Unit :=
  match b.remaining with
  | 0 => b.refuse (.cycleExhausted b.label cycle)
  | 1 =>
    let (deposits, slots) := SlotTable.takeValues b.computes.members b.slots
    { b with remaining := 0, phase := .closed, slots }.finish cycle deposits ()
  | left + 2 => ⟨.ok (), none, { b with remaining := left + 1 }⟩

/-- Spends a handle that was admitted into `cycle`, unless it was spent meanwhile. -/
def settle (b : SlottedBox σ P D) (h : Handle) (cycle : Nat) (value : D) : Reply σ P D Unit :=
  match b.slot? h with
  | none => b.refuse (.unknownHandle b.label h.task)
  | some slot =>
    if slot.lastCycle = cycle then b.refuse (.doubleUse b.label h.task cycle)
    else { b with slots := b.slots.modify h.task (.spent cycle value) }.countDown cycle

/-- The owner's verdict on a value, given the payload of the cycle: a value is checked only against
a payload. -/
def judge (b : SlottedBox σ P D) (check : ComputeId → P → D → Except Refusal Unit)
    (task : ComputeId) (value : D) : Except Refusal Unit :=
  match b.payload with
  | none => .ok ()
  | some payload => check task payload value

/-- A deposit that nothing gets in between. -/
def deposit (b : SlottedBox σ P D) (check : ComputeId → P → D → Except Refusal Unit) (h : Handle)
    (value : D) : Reply σ P D Unit :=
  match b.admission h with
  | .error r => b.refuse r
  | .ok cycle =>
    match b.judge check h.task value with
    | .error r => b.refuse r
    | .ok () => b.settle h cycle value

end SlottedBox

end PatchDynamics
