import PatchDynamics.Failure

/-!
# The particle directory

One table from particle number to the patch that holds the particle and its index there, shared by
all patches of an assembly.

* `register` enters a patch's list: the particle at position `i` of the list is at index `i`. It
  overwrites what was there, and of a number that is listed twice the later position stands.
* `unregister` empties an entry only while it still names the patch that gives the particle up, so a
  late call cannot undo a newer entry of another patch.
* `clear` empties the table and refuses every look-up until the next `register`.

Both changes check all numbers before they write, so a refused call changes nothing.
-/

namespace PatchDynamics

/-- Where a particle lives: a patch, and the index in that patch's lists. -/
structure Location where
  /-- the patch -/
  patch : PatchId
  /-- the index in the patch's lists -/
  index : UInt32
  deriving DecidableEq, Inhabited, Repr

/-- A count of the entries of a directory. -/
structure Census where
  /-- number of entries -/
  capacity : Nat
  /-- entries that hold a location -/
  assigned : Nat
  /-- entries that hold none -/
  unassigned : Nat
  /-- whether look-ups are refused -/
  cleared : Bool
  deriving DecidableEq, Inhabited, Repr

/-- The table from particle number to location. -/
structure Directory where
  /-- one entry for each particle number below the capacity -/
  table : Array (Option Location)
  /-- whether the directory was cleared and nothing has been entered since -/
  cleared : Bool
  deriving Inhabited

namespace Directory

/-- A directory for the particle numbers below `capacity`, nothing entered. -/
def allocate (capacity : Nat) : Directory := ⟨Array.replicate capacity none, false⟩

/-- A directory for the particle numbers below `capacity`, if one of that size can be addressed. -/
def allocate? (capacity : Nat) : Except Failure Directory := do
  Failure.ensureAddressable capacity 8
  return allocate capacity

/-- The directory that fits no particle. -/
def empty : Directory := allocate 0

/-- The number of particle numbers that fit. -/
def capacity (d : Directory) : Nat := d.table.size

/-- The first number of the list that does not fit, if there is one. -/
def firstMisfit (d : Directory) (ids : List ParticleId) : Option ParticleId :=
  ids.find? fun id => d.capacity ≤ id.toNat

/-- The entry of a particle number: none for one that does not fit. -/
def entry (d : Directory) (id : ParticleId) : Option Location := (d.table[id.toNat]?).join

/-- The table after entering one location. -/
def put (table : Array (Option Location)) (id : ParticleId) (loc : Location) :
    Array (Option Location) :=
  table.setIfInBounds id.toNat (some loc)

/-- The table after entering the list, the first particle at index `start`. -/
def putAll (patch : PatchId) : Nat → List ParticleId → Array (Option Location) →
    Array (Option Location)
  | _, [], table => table
  | start, id :: rest, table =>
    putAll patch (start + 1) rest (put table id ⟨patch, UInt32.ofNat start⟩)

/-- Enters the list of a patch; the number of particles entered. The reserved patch number may enter
nothing, which is a fault once the numbers have been found to fit. -/
def register (d : Directory) (patch : PatchId) (ids : List ParticleId) :
    Except Failure Nat × Directory :=
  match d.firstMisfit ids with
  | some id => (.error (.refused (.outOfRange id d.capacity)), d)
  | none =>
    if patch = PatchId.reserved then (.error (.fault .reservedPatch), d)
    else (.ok ids.length, ⟨putAll patch 0 ids d.table, false⟩)

/-- Empties one entry if it names `patch`, counting on. -/
def dropEntry (patch : PatchId) (state : Nat × Array (Option Location)) (id : ParticleId) :
    Nat × Array (Option Location) :=
  match state with
  | (count, table) =>
    match table[id.toNat]? with
    | some (some loc) =>
      if loc.patch = patch then (count + 1, table.setIfInBounds id.toNat none) else (count, table)
    | _ => (count, table)

/-- Gives up the listed particles; the number of entries that still named the patch. -/
def unregister (d : Directory) (patch : PatchId) (ids : List ParticleId) :
    Except Failure Nat × Directory :=
  match d.firstMisfit ids with
  | some id => (.error (.refused (.outOfRange id d.capacity)), d)
  | none =>
    match ids.foldl (dropEntry patch) (0, d.table) with
    | (count, table) => (.ok count, { d with table := table })

/-- Where a particle lives. -/
def lookup (d : Directory) (id : ParticleId) : Except Refusal Location :=
  if d.capacity ≤ id.toNat then .error (.outOfRange id d.capacity)
  else if d.cleared then .error (.directoryCleared id)
  else match d.entry id with
    | some loc => .ok loc
    | none => .error (.unassigned id)

/-- Empties every entry and refuses look-ups until the next `register`. -/
def clear (d : Directory) : Directory := ⟨Array.replicate d.capacity none, true⟩

/-- The number of entries that hold a location. -/
def assigned (d : Directory) : Nat := d.table.countP Option.isSome

/-- The count of all entries. -/
def census (d : Directory) : Census :=
  { capacity := d.capacity
    assigned := d.assigned
    unassigned := d.capacity - d.assigned
    cleared := d.cleared }

@[simp] theorem capacity_allocate (n : Nat) : (allocate n).capacity = n := by
  simp [allocate, capacity]

@[simp] theorem capacity_clear (d : Directory) : d.clear.capacity = d.capacity := by
  simp [clear, capacity]

@[simp] theorem size_put (table : Array (Option Location)) (id : ParticleId) (loc : Location) :
    (put table id loc).size = table.size := by
  simp [put]

@[simp] theorem size_putAll (patch : PatchId) (start : Nat) (ids : List ParticleId)
    (table : Array (Option Location)) : (putAll patch start ids table).size = table.size := by
  induction ids generalizing start table with
  | nil => rfl
  | cons id rest ih => rw [putAll, ih, size_put]

/-- What one entered location does to the table. -/
theorem getElem?_put (table : Array (Option Location)) (id : ParticleId) (loc : Location)
    (n : Nat) :
    (put table id loc)[n]? =
      if id.toNat = n then table[n]?.map fun _ => some loc else table[n]? := by
  rw [put, Array.getElem?_setIfInBounds]
  split
  · next h =>
    subst h
    split
    · next h => simp [h]
    · next h => simp [h]
  · rfl

/-- Entering a list keeps the capacity. -/
@[simp] theorem capacity_register (d : Directory) (patch : PatchId) (ids : List ParticleId) :
    (d.register patch ids).2.capacity = d.capacity := by
  unfold register
  split
  · rfl
  · split
    · rfl
    · simp [capacity]

/-- Emptying entries keeps the size of the table. -/
theorem size_foldl_dropEntry (patch : PatchId) (ids : List ParticleId)
    (state : Nat × Array (Option Location)) :
    (ids.foldl (dropEntry patch) state).2.size = state.2.size := by
  induction ids generalizing state with
  | nil => rfl
  | cons id rest ih =>
    rw [List.foldl_cons, ih]
    unfold dropEntry
    split
    split
    · split <;> simp
    · rfl

/-- Giving up a list keeps the capacity. -/
@[simp] theorem capacity_unregister (d : Directory) (patch : PatchId) (ids : List ParticleId) :
    (d.unregister patch ids).2.capacity = d.capacity := by
  unfold unregister
  split
  · rfl
  · exact size_foldl_dropEntry patch ids (0, d.table)

end Directory

end PatchDynamics
