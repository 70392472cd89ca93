import PatchDynamics.Directory

/-!
# Directories of words

An entry of a directory is one 64-bit word, so that it is read and written at once: the number of
the patch in the upper half, the index in the lower half. The word in which all bits are set stands
for no location. It would be that of the last index of the last patch number, and this is why no
patch may enter particles under that number.

`Directory` has locations in place of the words, and none in place of the word that stands for none.
-/

namespace PatchDynamics

namespace Location

/-- The word that stands for no location. -/
def unassigned : UInt64 := ~~~0

/-- The word of a location. -/
def pack (loc : Location) : UInt64 :=
  loc.patch.number.toUInt64 <<< 32 ||| loc.index.toUInt64

/-- The location of a word, if it stands for one. -/
def unpack (raw : UInt64) : Option Location :=
  if raw = unassigned then none else some ⟨⟨(raw >>> 32).toUInt32⟩, raw.toUInt32⟩

end Location

/-- The table from particle number to the word of a location. -/
structure PackedDirectory where
  /-- one word for each particle number below the capacity -/
  table : Array UInt64
  /-- whether the directory was cleared and nothing has been entered since -/
  cleared : Bool

namespace PackedDirectory

/-- A directory for the particle numbers below `capacity`, nothing entered. -/
def allocate (capacity : Nat) : PackedDirectory :=
  ⟨Array.replicate capacity Location.unassigned, false⟩

/-- A directory for the particle numbers below `capacity`, if one of that size can be addressed. -/
def allocate? (capacity : Nat) : Except Failure PackedDirectory := do
  Failure.ensureAddressable capacity 8
  return allocate capacity

/-- The directory that fits no particle. -/
def empty : PackedDirectory := allocate 0

/-- The number of particle numbers that fit. -/
def capacity (d : PackedDirectory) : Nat := d.table.size

/-- The first number of the list that does not fit, if there is one. -/
def firstMisfit (d : PackedDirectory) (ids : List ParticleId) : Option ParticleId :=
  ids.find? fun id => d.capacity ≤ id.toNat

/-- The table after entering the list, the first particle at index `start`. -/
def putAll (patch : PatchId) : Nat → List ParticleId → Array UInt64 → Array UInt64
  | _, [], table => table
  | start, id :: rest, table =>
    let loc : Location := ⟨patch, UInt32.ofNat start⟩
    putAll patch (start + 1) rest (table.setIfInBounds id.toNat loc.pack)

/-- Enters the list of a patch; the number of particles entered. -/
def register (d : PackedDirectory) (patch : PatchId) (ids : List ParticleId) :
    Except Failure Nat × PackedDirectory :=
  match d.firstMisfit ids with
  | some id => (.error (.refused (.outOfRange id d.capacity)), d)
  | none =>
    if patch = PatchId.reserved then (.error (.fault .reservedPatch), d)
    else (.ok ids.length, ⟨putAll patch 0 ids d.table, false⟩)

/-- Empties one entry if its word names `patch`, counting on. -/
def dropEntry (patch : PatchId) (state : Nat × Array UInt64) (id : ParticleId) :
    Nat × Array UInt64 :=
  match state with
  | (count, table) =>
    match table[id.toNat]?.bind Location.unpack with
    | some loc =>
      if loc.patch = patch then
        (count + 1, table.setIfInBounds id.toNat Location.unassigned)
      else (count, table)
    | none => (count, table)

/-- Gives up the listed particles; the number of entries that still named the patch. -/
def unregister (d : PackedDirectory) (patch : PatchId) (ids : List ParticleId) :
    Except Failure Nat × PackedDirectory :=
  match d.firstMisfit ids with
  | some id => (.error (.refused (.outOfRange id d.capacity)), d)
  | none =>
    match ids.foldl (dropEntry patch) (0, d.table) with
    | (count, table) => (.ok count, { d with table := table })

/-- Where a particle lives. -/
def lookup (d : PackedDirectory) (id : ParticleId) : Except Refusal Location :=
  match d.table[id.toNat]? with
  | none => .error (.outOfRange id d.capacity)
  | some raw =>
    if d.cleared then .error (.directoryCleared id)
    else match Location.unpack raw with
      | some loc => .ok loc
      | none => .error (.unassigned id)

/-- Empties every entry and refuses look-ups until the next `register`. -/
def clear (d : PackedDirectory) : PackedDirectory :=
  ⟨Array.replicate d.capacity Location.unassigned, true⟩

/-- The number of words that stand for a location. -/
def assigned (d : PackedDirectory) : Nat := d.table.countP (· ≠ Location.unassigned)

/-- The count of all entries. -/
def census (d : PackedDirectory) : Census :=
  { capacity := d.capacity
    assigned := d.assigned
    unassigned := d.capacity - d.assigned
    cleared := d.cleared }

end PackedDirectory

end PatchDynamics
