import PatchDynamics.Refusal

/-!
# Boxes

The meeting point of one owner and many computes. A compute registers once and gets a **handle**;
the owner opens the box with a **payload** for a **cycle**; while the box is open, every live handle
may retrieve the payload as often as it likes.

* On a **read** box nobody deposits, and the owner closes the cycle.
* On an **accumulate** box each handle deposits one value in each cycle. The cycle was opened with a
  count of deposits to come, one for each compute registered then, and the deposit that takes the
  count to zero closes the cycle.

Closing a cycle answers a **completion**, for the owner to act on: the deposited values in the order
of registration and the number of retrievals. The box is idle again at that moment, so the owner may
open the next cycle.

A deposit goes through three stages: `admission` (is the handle good for a deposit now?), the
owner's check of the value, and `settle` (spend the handle, keep the value, count down). Between the
first and the last stage other deposits may get in, which is why `settle` looks once more.

Every call answers a `Reply`: the outcome, a completion if the call closed a cycle, and the box.
-/

namespace PatchDynamics

/-- Where a box stands. -/
inductive Phase where
  /-- between cycles -/
  | idle
  /-- in a cycle -/
  | opened
  /-- the cycle is over and the owner has not heard of it -/
  | closed
  deriving DecidableEq, Inhabited, Repr

namespace Phase

/-- The name of the phase as a tag. -/
def tag : Phase → String
  | .idle => "Idle"
  | .opened => "Open"
  | .closed => "Closed"

end Phase

/-- The right to use one box. The token tells apart the registrations of one compute that came after
each other. -/
structure Handle where
  /-- the box that issued the handle -/
  box : Nat
  /-- the compute it was issued to -/
  task : ComputeId
  /-- the registration it stands for -/
  token : Nat
  deriving DecidableEq, Inhabited, Repr

/-- What the owner hears when a cycle closes. -/
structure Completion (D : Type) where
  /-- the box -/
  label : BoxLabel
  /-- the cycle that closed -/
  cycle : Nat
  /-- the deposited values in the order of registration -/
  deposits : List (ComputeId × D)
  /-- the number of retrievals during the cycle -/
  retrievals : Nat
  deriving Repr

/-- One live registration. -/
structure Registration (D : Type) where
  /-- the compute -/
  task : ComputeId
  /-- the token of its handle -/
  token : Nat
  /-- the cycle in which the handle was last spent, zero before the first -/
  lastCycle : Nat
  /-- a deposited value that no completion has taken -/
  value : Option D
  deriving Repr

/-- One owner's box, with payloads of type `P` and deposits of type `D`. -/
structure Box (P D : Type) where
  /-- the number that tells this box from all others -/
  serial : Nat
  /-- the owner, and what the box carries -/
  label : BoxLabel
  /-- how consumers use the box -/
  mode : BoxMode
  /-- where the box stands -/
  phase : Phase
  /-- the number of the latest cycle, zero before the first -/
  cycle : Nat
  /-- deposits to come in this cycle, as counted from its opening -/
  remaining : Nat
  /-- retrievals in the latest cycle -/
  retrievals : Nat
  /-- the live registrations in the order they were made -/
  registrations : List (Registration D)
  /-- the payload of the latest cycle -/
  payload : Option P
  /-- the token of the next registration -/
  nextToken : Nat

/-- What one call on a box does. -/
structure Reply (P D α : Type) where
  /-- what the caller gets -/
  outcome : Except Refusal α
  /-- what the owner hears, if the call closed a cycle -/
  completion : Option (Completion D)
  /-- the box after the call -/
  box : Box P D

namespace Box

variable {P D : Type}

/-- A new box: idle, nobody registered, no cycle yet. -/
def new (serial : Nat) (label : BoxLabel) (mode : BoxMode) : Box P D :=
  { serial, label, mode
    phase := .idle
    cycle := 0
    remaining := 0
    retrievals := 0
    registrations := []
    payload := none
    nextToken := 1 }

/-- The computes registered here, in the order of registration. -/
def tasks (b : Box P D) : List ComputeId := b.registrations.map Registration.task

/-- The number of deposits that the next cycle waits for. -/
def expected (b : Box P D) : Nat := b.registrations.length

/-- A call that is refused and changes nothing. -/
def refuse {α : Type} (b : Box P D) (r : Refusal) : Reply P D α := ⟨.error r, none, b⟩

/-- The live registration that a handle stands for. -/
def live? (b : Box P D) (h : Handle) : Option (Registration D) :=
  if h.box = b.serial then b.registrations.find? fun r => r.task = h.task ∧ r.token = h.token
  else none

/-! ## Registration -/

/-- Registers a compute and issues its handle. Allowed at any time; the count of a cycle that is
under way does not change. -/
def register (b : Box P D) (task : ComputeId) : Reply P D Handle :=
  if task ∈ b.tasks then b.refuse (.alreadyRegistered b.label task)
  else
    { outcome := .ok ⟨b.serial, task, b.nextToken⟩
      completion := none
      box := { b with
        registrations := b.registrations ++ [⟨task, b.nextToken, 0, none⟩]
        nextToken := b.nextToken + 1 } }

/-- Gives a handle back. The registration goes, with a value that it may hold. -/
def unregister (b : Box P D) (h : Handle) : Reply P D Unit :=
  match b.live? h with
  | none => b.refuse (.unknownHandle b.label h.task)
  | some _ =>
    { outcome := .ok ()
      completion := none
      box := { b with registrations := b.registrations.filter fun r => r.task ≠ h.task } }

/-! ## Cycles -/

/-- The registered values in order, as they go into a completion. -/
def collected (b : Box P D) : List (ComputeId × D) :=
  b.registrations.filterMap fun r => r.value.map (r.task, ·)

/-- The box with the cycle over and the deposited values taken out. -/
def shut (b : Box P D) : Box P D :=
  { b with
    phase := .closed
    registrations := b.registrations.map fun r => { r with value := none } }

/-- Lets the owner hear of the cycle that just closed: the box is idle at that moment. -/
def finish {α : Type} (b : Box P D) (cycle : Nat) (deposits : List (ComputeId × D)) (a : α) :
    Reply P D α :=
  { outcome := .ok a
    completion := some ⟨b.label, cycle, deposits, b.retrievals⟩
    box := { b with phase := .idle } }

/-- The box at the start of its next cycle. -/
def start (b : Box P D) (payload : P) : Box P D :=
  { b with
    phase := .opened
    cycle := b.cycle + 1
    remaining := b.expected
    retrievals := 0
    payload := some payload }

/-- Publishes a payload and starts the next cycle; the number of that cycle. An accumulate box that
waits for no deposit closes it at once. -/
def publish (b : Box P D) (payload : P) : Reply P D Nat :=
  if b.phase ≠ .idle then b.refuse (.alreadyOpen b.label b.cycle)
  else
    let opened := b.start payload
    if b.mode = .accumulate ∧ b.expected = 0 then opened.shut.finish opened.cycle [] opened.cycle
    else ⟨.ok opened.cycle, none, opened⟩

/-- Ends the cycle of a read box, whether or not everybody has read. -/
def close (b : Box P D) : Reply P D Unit :=
  if b.mode = .accumulate then b.refuse (.closedByDeposits b.label)
  else if b.phase ≠ .opened then b.refuse (.notOpen b.label)
  else { b with phase := .closed }.finish b.cycle [] ()

/-- The payload of the cycle under way. -/
def retrieve (b : Box P D) (h : Handle) : Reply P D P :=
  match b.live? h with
  | none => b.refuse (.unknownHandle b.label h.task)
  | some _ =>
    if b.phase ≠ .opened then b.refuse (.notOpen b.label)
    else match b.payload with
      | none => b.refuse (.notOpen b.label)
      | some payload =>
        ⟨.ok payload, none, { b with retrievals := b.retrievals + 1 }⟩

/-! ## Deposits -/

/-- Whether a handle may deposit now, and into which cycle. -/
def admission (b : Box P D) (h : Handle) : Except Refusal Nat :=
  match b.live? h with
  | none => .error (.unknownHandle b.label h.task)
  | some r =>
    if b.mode = .read then .error (.wrongMode b.label h.task)
    else if b.cycle ≠ 0 ∧ r.lastCycle = b.cycle then
      .error (.doubleUse b.label h.task b.cycle)
    else if b.phase ≠ .opened then .error (.notOpen b.label)
    else .ok b.cycle

/-- The box with a handle spent in a cycle and its value kept. -/
def keep (b : Box P D) (h : Handle) (cycle : Nat) (value : D) : Box P D :=
  { b with registrations := b.registrations.map fun r =>
      if r.task = h.task then { r with lastCycle := cycle, value := some value } else r }

/-- Counts a kept deposit. One that no count is left for is refused, though its value is kept; the
last one closes the cycle. -/
def countDown (b : Box P D) (cycle : Nat) : Reply P D Unit :=
  match b.remaining with
  | 0 => b.refuse (.cycleExhausted b.label cycle)
  | 1 =>
    let counted := { b with remaining := 0 }
    counted.shut.finish cycle counted.collected ()
  | left + 2 => ⟨.ok (), none, { b with remaining := left + 1 }⟩

/-- Spends a handle that was admitted into `cycle`, unless it was spent meanwhile. -/
def settle (b : Box P D) (h : Handle) (cycle : Nat) (value : D) : Reply P D Unit :=
  match b.live? h with
  | none => b.refuse (.unknownHandle b.label h.task)
  | some r =>
    if r.lastCycle = cycle then b.refuse (.doubleUse b.label h.task cycle)
    else (b.keep h cycle value).countDown cycle

/-- The owner's verdict on a value, given the payload of the cycle: a value is checked only against
a payload. -/
def judge (b : Box P D) (check : ComputeId → P → D → Except Refusal Unit) (task : ComputeId)
    (value : D) : Except Refusal Unit :=
  match b.payload with
  | none => .ok ()
  | some payload => check task payload value

/-- A deposit that nothing gets in between. -/
def deposit (b : Box P D) (check : ComputeId → P → D → Except Refusal Unit) (h : Handle)
    (value : D) : Reply P D Unit :=
  match b.admission h with
  | .error r => b.refuse r
  | .ok cycle =>
    match b.judge check h.task value with
    | .error r => b.refuse r
    | .ok () => b.settle h cycle value

/-- The check that accepts every value. -/
def acceptAll : ComputeId → P → D → Except Refusal Unit := fun _ _ _ => .ok ()

/-! ## What calls leave alone -/

@[simp] theorem tasks_shut (b : Box P D) : b.shut.tasks = b.tasks := by
  simp [shut, tasks]

@[simp] theorem tasks_keep (b : Box P D) (h : Handle) (cycle : Nat) (value : D) :
    (b.keep h cycle value).tasks = b.tasks := by
  unfold keep tasks
  rw [List.map_map]
  refine List.map_congr_left fun r _ => ?_
  simp only [Function.comp]
  split <;> rfl

/-- A registration adds its compute at the end. -/
theorem tasks_register {b : Box P D} {task : ComputeId} (h : task ∉ b.tasks) :
    (b.register task).box.tasks = b.tasks ++ [task] := by
  rw [register, if_neg h]
  simp [tasks]

/-- A handle given back takes its compute out and keeps the order of the others. -/
theorem tasks_unregister {b : Box P D} {h : Handle} {r : Registration D}
    (live : b.live? h = some r) :
    (b.unregister h).box.tasks = b.tasks.filter (· ≠ h.task) := by
  simp only [unregister, live, tasks, List.filter_map]
  rfl

/-! ## Description -/

/-- The box in one line. -/
def describe (b : Box P D) : String :=
  s!"OwnerBox \x7b label: BoxLabel \x7b patch: PatchId({b.label.patch.text}), " ++
    s!"kind: {b.label.kind.tag} \x7d, mode: {b.mode.tag}, phase: {b.phase.tag}, " ++
    s!"cycle: {b.cycle}, remaining: {b.remaining}, expected: {b.expected} \x7d"

/-- The box in one line, as its consumers see it. -/
def describeView (b : Box P D) : String := s!"ConsumerBox({b.describe})"

end Box

end PatchDynamics
