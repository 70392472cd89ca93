import PatchDynamics.Directory.Packed
import PatchDynamics.Proofs.Directory.Record

/-!
# The words of a directory

A directory of words answers as the directory of the locations that the words stand for. A location
is not always the one that its word stands for: the last index of the reserved patch has the word
for no location. What keeps that one out of the table is that the reserved patch enters nothing:

* `unpack_pack`, `pack_unpack` — which locations come back from their words, and all words from
  their locations;
* `toDirectory` — the directory with the locations in place of the words;
* one lemma for each call, and `words_agree` for every run of calls.
-/

namespace PatchDynamics

namespace Location

/-! ## Words and locations -/

theorem toNat_pack (loc : Location) :
    loc.pack.toNat = loc.patch.number.toNat * 2 ^ 32 + loc.index.toNat := by
  have hpatch := loc.patch.number.toNat_lt
  have hindex := loc.index.toNat_lt
  have hshift : loc.patch.number.toNat <<< 32 < 2 ^ 64 := by
    rw [Nat.shiftLeft_eq]
    omega
  rw [pack, UInt64.toNat_or, UInt64.toNat_shiftLeft, UInt32.toNat_toUInt64, UInt32.toNat_toUInt64,
    show (32 : UInt64).toNat % 64 = 32 from rfl, Nat.mod_eq_of_lt hshift,
    ← Nat.shiftLeft_add_eq_or_of_lt hindex, Nat.shiftLeft_eq]

/-- The halves of the word. -/
theorem halves_pack (loc : Location) :
    (loc.pack >>> 32).toUInt32 = loc.patch.number ∧ loc.pack.toUInt32 = loc.index := by
  have hpatch := loc.patch.number.toNat_lt
  have hindex := loc.index.toNat_lt
  constructor
  · apply UInt32.toNat_inj.mp
    rw [UInt64.toNat_toUInt32, UInt64.toNat_shiftRight, toNat_pack,
      show (32 : UInt64).toNat % 64 = 32 from rfl, Nat.shiftRight_eq_div_pow]
    omega
  · apply UInt32.toNat_inj.mp
    rw [UInt64.toNat_toUInt32, toNat_pack]
    omega

/-- Only the last index of the reserved patch has the word that stands for no location. -/
theorem pack_eq_unassigned_iff {loc : Location} :
    loc.pack = unassigned ↔ loc.patch = PatchId.reserved ∧ loc.index = ~~~0 := by
  constructor
  · intro h
    obtain ⟨hpatch, hindex⟩ := loc.halves_pack
    rw [h] at hpatch hindex
    obtain ⟨⟨number⟩, index⟩ := loc
    exact ⟨congrArg PatchId.mk hpatch.symm, hindex.symm⟩
  · obtain ⟨patch, index⟩ := loc
    rintro ⟨rfl, rfl⟩
    rfl

/-- **A location comes back from its word**, unless it is the last index of the reserved patch. -/
theorem unpack_pack {loc : Location} :
    unpack loc.pack = some loc ↔ ¬ (loc.patch = PatchId.reserved ∧ loc.index = ~~~0) := by
  rw [← pack_eq_unassigned_iff, unpack]
  by_cases h : loc.pack = unassigned
  · rw [if_pos h]
    exact iff_of_false nofun (not_not_intro h)
  · rw [if_neg h, loc.halves_pack.1, loc.halves_pack.2]
    exact iff_of_true rfl h

/-- **A word comes back from its location**, if it stands for one. -/
theorem pack_unpack {raw : UInt64} {loc : Location} (h : unpack raw = some loc) :
    loc.pack = raw := by
  rw [unpack] at h
  split at h
  · cases h
  · obtain rfl := Option.some.inj h
    apply UInt64.toNat_inj.mp
    rw [toNat_pack]
    dsimp only
    rw [UInt64.toNat_toUInt32, UInt64.toNat_toUInt32, UInt64.toNat_shiftRight,
      show (32 : UInt64).toNat % 64 = 32 from rfl, Nat.shiftRight_eq_div_pow]
    have hraw := raw.toNat_lt
    omega

theorem unpack_unassigned : unpack unassigned = none := if_pos rfl

theorem isSome_unpack {raw : UInt64} : (unpack raw).isSome = decide (raw ≠ unassigned) := by
  rw [unpack]
  split <;> simp_all

end Location

namespace PackedDirectory

open Directory (Call Answer Event)

variable {d : PackedDirectory} {table : Array UInt64} {patch : PatchId} {ids : List ParticleId}

/-! ## Directories of words -/

/-- The directory with the locations in place of the words. -/
def toDirectory (d : PackedDirectory) : Directory := ⟨d.table.map Location.unpack, d.cleared⟩

theorem capacity_toDirectory (d : PackedDirectory) : d.toDirectory.capacity = d.capacity :=
  Array.size_map

theorem firstMisfit_toDirectory (d : PackedDirectory) (ids : List ParticleId) :
    d.toDirectory.firstMisfit ids = d.firstMisfit ids := by
  rw [Directory.firstMisfit, firstMisfit, capacity_toDirectory]

theorem toDirectory_allocate (capacity : Nat) :
    (allocate capacity).toDirectory = Directory.allocate capacity := by
  rw [toDirectory, allocate, Array.map_replicate, Location.unpack_unassigned]
  rfl

theorem toDirectory_clear (d : PackedDirectory) : d.clear.toDirectory = d.toDirectory.clear := by
  rw [toDirectory, clear, Array.map_replicate, Location.unpack_unassigned, Directory.clear,
    capacity_toDirectory]

/-- **A list is entered** location by location, as no patch but the reserved one has a location that
is lost. -/
theorem map_putAll (hpatch : patch ≠ PatchId.reserved) (start : Nat) (ids : List ParticleId)
    (table : Array UInt64) :
    (putAll patch start ids table).map Location.unpack =
      Directory.putAll patch start ids (table.map Location.unpack) := by
  induction ids generalizing start table with
  | nil => rfl
  | cons id ids ih =>
    have hback : Location.unpack (Location.pack ⟨patch, UInt32.ofNat start⟩) =
        some ⟨patch, UInt32.ofNat start⟩ := Location.unpack_pack.mpr fun h => hpatch h.1
    rw [putAll, ih, Array.map_setIfInBounds, hback]
    rfl

theorem register_toDirectory (d : PackedDirectory) (patch : PatchId) (ids : List ParticleId) :
    d.toDirectory.register patch ids =
      ((d.register patch ids).1, (d.register patch ids).2.toDirectory) := by
  rw [Directory.register, register, firstMisfit_toDirectory, capacity_toDirectory]
  cases d.firstMisfit ids with
  | some id => rfl
  | none =>
    by_cases hpatch : patch = PatchId.reserved
    · simp only [if_pos hpatch]
    · simp only [if_neg hpatch]
      rw [toDirectory, toDirectory, map_putAll hpatch]

/-- One entry is given up as the location that its word stands for. -/
theorem map_dropEntry (patch : PatchId) (state : Nat × Array UInt64) (id : ParticleId) :
    Directory.dropEntry patch (state.1, state.2.map Location.unpack) id =
      ((dropEntry patch state id).1, (dropEntry patch state id).2.map Location.unpack) := by
  obtain ⟨count, table⟩ := state
  rw [Directory.dropEntry, dropEntry, Array.getElem?_map]
  cases table[id.toNat]? with
  | none => rfl
  | some raw =>
    rw [Option.map_some, Option.bind_some]
    cases Location.unpack raw with
    | none => rfl
    | some loc =>
      by_cases hloc : loc.patch = patch
      · simp only [if_pos hloc, Array.map_setIfInBounds, Location.unpack_unassigned]
      · simp only [if_neg hloc]

theorem map_foldl_dropEntry (patch : PatchId) (ids : List ParticleId)
    (state : Nat × Array UInt64) :
    ids.foldl (Directory.dropEntry patch) (state.1, state.2.map Location.unpack) =
      ((ids.foldl (dropEntry patch) state).1,
        (ids.foldl (dropEntry patch) state).2.map Location.unpack) := by
  induction ids generalizing state with
  | nil => rfl
  | cons id ids ih => rw [List.foldl_cons, map_dropEntry, ih, List.foldl_cons]

theorem unregister_toDirectory (d : PackedDirectory) (patch : PatchId) (ids : List ParticleId) :
    d.toDirectory.unregister patch ids =
      ((d.unregister patch ids).1, (d.unregister patch ids).2.toDirectory) := by
  rw [Directory.unregister, unregister, firstMisfit_toDirectory, capacity_toDirectory]
  cases d.firstMisfit ids with
  | some id => rfl
  | none =>
    have hdropped := map_foldl_dropEntry patch ids (0, d.table)
    simp only [toDirectory, hdropped]

theorem lookup_toDirectory (d : PackedDirectory) (id : ParticleId) :
    d.toDirectory.lookup id = d.lookup id := by
  rw [Directory.lookup, lookup, capacity_toDirectory, Directory.entry]
  cases hentry : d.table[id.toNat]? with
  | none =>
    have hmisfit : d.capacity ≤ id.toNat := Array.getElem?_eq_none_iff.mp hentry
    rw [if_pos hmisfit]
  | some raw =>
    have hfits : id.toNat < d.capacity := (Array.getElem?_eq_some_iff.mp hentry).1
    have hword : (d.toDirectory.table[id.toNat]?).join = Location.unpack raw := by
      rw [toDirectory, Array.getElem?_map, hentry]
      rfl
    rw [if_neg (Nat.not_le_of_lt hfits), hword]
    rfl

theorem census_toDirectory (d : PackedDirectory) : d.toDirectory.census = d.census := by
  have hassigned : d.toDirectory.assigned = d.assigned := by
    rw [Directory.assigned, assigned, toDirectory, Array.countP_map]
    exact congrArg (Array.countP · d.table) (funext fun raw => Location.isSome_unpack)
  rw [Directory.census, census, hassigned, capacity_toDirectory]
  rfl

/-! ## Runs -/

/-- Makes a call. A table that no address space holds leaves the directory as it was. -/
def perform (d : PackedDirectory) : Call → Except Failure Answer × PackedDirectory
  | .allocate capacity =>
    match allocate? capacity with
    | .ok fresh => (.ok .done, fresh)
    | .error f => (.error f, d)
  | .register patch ids => ((d.register patch ids).1.map .count, (d.register patch ids).2)
  | .unregister patch ids => ((d.unregister patch ids).1.map .count, (d.unregister patch ids).2)
  | .lookup id => (((d.lookup id).mapError .refused).map .location, d)
  | .clear => (.ok .done, d.clear)
  | .census => (.ok (.census d.census), d)

/-- The directory after some calls. -/
def after (d : PackedDirectory) (calls : List Call) : PackedDirectory :=
  calls.foldl (fun d c => (d.perform c).2) d

/-- What is seen of each of some calls, in order. -/
def history : PackedDirectory → List Call → List Event :=
  trace (fun d c => (d.perform c).2) fun d c => ⟨c, (d.perform c).1⟩

/-- **Each call** is answered by the words as by the locations, and changes them alike. -/
theorem perform_toDirectory (d : PackedDirectory) (c : Call) :
    d.toDirectory.perform c = ((d.perform c).1, (d.perform c).2.toDirectory) := by
  cases c with
  | allocate capacity =>
    rw [Directory.perform, perform, Directory.allocate?, allocate?]
    cases Failure.ensureAddressable capacity 8 with
    | error f => rfl
    | ok => exact congrArg (Prod.mk _) (toDirectory_allocate capacity).symm
  | register patch ids => rw [Directory.perform, register_toDirectory, perform]
  | unregister patch ids => rw [Directory.perform, unregister_toDirectory, perform]
  | lookup id => rw [Directory.perform, lookup_toDirectory, perform]
  | clear => rw [Directory.perform, ← toDirectory_clear, perform]
  | census => rw [Directory.perform, census_toDirectory, perform]

/-- **Words do as locations.** Every run of calls on a new directory has the same outcomes with
words in the table as with locations, whatever was entered, given up, refused or cleared. Afterwards
the words stand for the locations. -/
theorem words_agree (calls : List Call) :
    empty.history calls = Directory.empty.history calls ∧
      (empty.after calls).toDirectory = Directory.empty.after calls := by
  suffices hrun : ∀ d : PackedDirectory, d.history calls = d.toDirectory.history calls ∧
      (d.after calls).toDirectory = d.toDirectory.after calls by
    have hnew := hrun empty
    rwa [empty, toDirectory_allocate, ← Directory.empty, ← empty] at hnew
  induction calls with
  | nil => exact fun d => ⟨rfl, rfl⟩
  | cons c calls ih =>
    intro d
    obtain ⟨hhistory, hafter⟩ := ih (d.perform c).2
    have hcall := d.perform_toDirectory c
    have houtcome : (d.toDirectory.perform c).1 = (d.perform c).1 := congrArg Prod.fst hcall
    have hnext : (d.toDirectory.perform c).2 = (d.perform c).2.toDirectory :=
      congrArg Prod.snd hcall
    rw [← hnext] at hhistory hafter
    refine ⟨?_, hafter⟩
    have hall : (⟨c, (d.perform c).1⟩ :: (d.perform c).2.history calls : List Event) =
        ⟨c, (d.toDirectory.perform c).1⟩ :: (d.toDirectory.perform c).2.history calls := by
      rw [houtcome, hhistory]
    exact hall

end PackedDirectory

end PatchDynamics
