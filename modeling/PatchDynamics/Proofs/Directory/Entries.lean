import Mathlib.Data.List.Nodup
import Mathlib.Data.Fintype.Card
import PatchDynamics.Directory

/-!
# The entries of a directory

Every call on a directory is described by what it does to one entry. That is enough, because a
directory is known by its entries:

* `placed` — where entering a list puts a number, the last position of the number in the list;
* `slot_putAll`, `slot_foldl_dropEntry` — what entering a list and giving it up do to an entry;
* `Reached` — the directories that calls can lead to, and `Reached.tidy`, what holds of them;
* `lookup_eq_ok_iff` — when a particle is found;
* `assigned_eq_length` — how many entries hold a location.
-/

namespace PatchDynamics

namespace Directory

variable {table : Array (Option Location)} {patch : PatchId} {ids : List ParticleId}
  {id : ParticleId} {loc : Location} {n : Nat}

/-- The entry at a number, none past the end of the table. -/
def slot (table : Array (Option Location)) (n : Nat) : Option Location := (table[n]?).join

theorem slot_toNat (d : Directory) (id : ParticleId) : slot d.table id.toNat = d.entry id := rfl

theorem slot_of_size_le (h : table.size ≤ n) : slot table n = none := by
  simp [slot, Array.getElem?_eq_none h]

theorem lt_size_of_slot (h : slot table n = some loc) : n < table.size := by
  by_contra hle
  rw [slot_of_size_le (Nat.le_of_not_lt hle)] at h
  cases h

@[simp] theorem slot_replicate_none (size n : Nat) : slot (Array.replicate size none) n = none := by
  rw [slot, Array.getElem?_replicate]
  split <;> rfl

/-- A table is known by its entries. -/
theorem table_ext {other : Array (Option Location)} (hsize : table.size = other.size)
    (hslot : ∀ n, slot table n = slot other n) : table = other := by
  refine Array.ext hsize fun n hn hn' => ?_
  have h := hslot n
  simpa [slot, Array.getElem?_eq_getElem hn, Array.getElem?_eq_getElem hn'] using h

/-! ## Entering a list -/

/-- Where entering a list puts a number: the last position of the number, if the list has it. -/
def placed (patch : PatchId) : Nat → List ParticleId → Nat → Option Location
  | _, [], _ => none
  | start, id :: rest, n =>
    (placed patch (start + 1) rest n).or
      (if id.toNat = n then some ⟨patch, UInt32.ofNat start⟩ else none)

theorem slot_put (h : id.toNat < table.size) :
    slot (put table id loc) n = if id.toNat = n then some loc else slot table n := by
  rw [slot, getElem?_put]
  split
  · next hn =>
    subst hn
    simp [h]
  · rfl

/-- **What entering a list does** to an entry. -/
theorem slot_putAll (patch : PatchId) (start : Nat) (n : Nat)
    (h : ∀ id ∈ ids, id.toNat < table.size) :
    slot (putAll patch start ids table) n = (placed patch start ids n).or (slot table n) := by
  induction ids generalizing start table with
  | nil => simp [putAll, placed]
  | cons id rest ih =>
    rw [List.forall_mem_cons] at h
    have hrest : ∀ id' ∈ rest, id'.toNat < (put table id ⟨patch, UInt32.ofNat start⟩).size := by
      simpa using h.2
    rw [putAll, ih (start + 1) hrest, slot_put h.1, placed, Option.or_assoc]
    split <;> rfl

theorem placed_eq_none_iff {start : Nat} :
    placed patch start ids n = none ↔ n ∉ ids.map UInt32.toNat := by
  induction ids generalizing start with
  | nil => simp [placed]
  | cons id rest ih =>
    rw [placed, Option.or_eq_none_iff, ih, List.map_cons, List.mem_cons, not_or, and_comm,
      ite_eq_right_iff, eq_comm]
    simp

/-- What is entered names the patch, and an index at which the list has the number. -/
theorem placed_eq_some {start : Nat} (h : placed patch start ids n = some loc) :
    loc.patch = patch ∧
      ∃ i id, ids[i]? = some id ∧ id.toNat = n ∧ loc.index = UInt32.ofNat (start + i) := by
  induction ids generalizing start with
  | nil => cases h
  | cons id rest ih =>
    rw [placed, Option.or_eq_some_iff] at h
    rcases h with hlate | ⟨-, hfirst⟩
    · obtain ⟨hpatch, i, id', hi, hn, hindex⟩ := ih hlate
      exact ⟨hpatch, i + 1, id', hi, hn, by rw [hindex, Nat.add_right_comm, Nat.add_assoc]⟩
    · obtain ⟨hn, hloc⟩ := Option.ite_none_right_eq_some.mp hfirst
      obtain rfl := Option.some.inj hloc
      exact ⟨rfl, 0, id, rfl, hn, rfl⟩

/-- A list shorter than the indices reach has the number at the index that is entered. -/
theorem getElem?_of_placed (hlength : ids.length ≤ UInt32.size)
    (h : placed patch 0 ids id.toNat = some loc) : ids[loc.index.toNat]? = some id := by
  obtain ⟨-, i, id', hi, hn, hindex⟩ := placed_eq_some h
  obtain ⟨hlt, -⟩ := List.getElem?_eq_some_iff.mp hi
  rw [hindex, Nat.zero_add, UInt32.toNat_ofNat_of_lt' (hlt.trans_le hlength), hi,
    UInt32.toNat_inj.mp hn]

/-- Particle numbers are 32-bit words, so there are only so many different ones. -/
theorem length_le_of_nodup (h : ids.Nodup) : ids.length ≤ UInt32.size := by
  have hcard := (h.map fun _ _ => UInt32.toFin_inj.mp).length_le_card
  rwa [List.length_map, Fintype.card_fin] at hcard

/-- Of different numbers, each is entered where the list has it. -/
theorem placed_eq_some_iff (hnodup : ids.Nodup) :
    placed patch 0 ids id.toNat = some loc ↔
      loc.patch = patch ∧ ids[loc.index.toNat]? = some id := by
  have hlength := length_le_of_nodup hnodup
  constructor
  · intro h
    exact ⟨(placed_eq_some h).1, getElem?_of_placed hlength h⟩
  · rintro ⟨hpatch, hindex⟩
    have hmem : id ∈ ids := List.mem_of_getElem? hindex
    have hsome : placed patch 0 ids id.toNat ≠ none := by
      rw [Ne, placed_eq_none_iff, not_not]
      exact List.mem_map_of_mem hmem
    obtain ⟨loc', hloc'⟩ := Option.ne_none_iff_exists'.mp hsome
    -- the list has the number only once
    obtain ⟨hlt, hget⟩ := List.getElem?_eq_some_iff.mp hindex
    obtain ⟨hlt', hget'⟩ := List.getElem?_eq_some_iff.mp (getElem?_of_placed hlength hloc')
    have hsame : loc'.index.toNat = loc.index.toNat :=
      (hnodup.getElem_inj_iff).mp (hget'.trans hget.symm)
    have hpatch' := (placed_eq_some hloc').1
    rw [hloc']
    cases loc
    cases loc'
    cases hpatch
    cases hpatch'
    cases UInt32.toNat_inj.mp hsame
    rfl

/-! ## Giving a list up -/

theorem slot_dropEntry (state : Nat × Array (Option Location)) (id : ParticleId) (n : Nat) :
    slot (dropEntry patch state id).2 n =
      if id.toNat = n then (slot state.2 n).filter (fun loc => loc.patch ≠ patch)
      else slot state.2 n := by
  obtain ⟨count, table⟩ := state
  rw [dropEntry]
  split
  · next loc hget =>
    obtain ⟨hlt, hentry⟩ := Array.getElem?_eq_some_iff.mp hget
    by_cases hn : id.toNat = n
    · subst hn
      by_cases hpatch : loc.patch = patch <;>
        simp [slot, hpatch, hlt, hentry, Option.filter_some]
    · by_cases hpatch : loc.patch = patch <;> simp [slot, hpatch, hn]
  · next hnone =>
    -- the entry is none as it is
    have hslot : slot table id.toNat = none := by
      cases hget : table[id.toNat]? with
      | none => simp [slot, hget]
      | some entry =>
        cases entry with
        | none => simp [slot, hget]
        | some loc => exact absurd hget (hnone loc)
    split
    · next hn =>
      subst hn
      simp [hslot]
    · rfl

/-- **What giving a list up does** to an entry: it is emptied if the list has the number and the
entry names the patch. -/
theorem slot_foldl_dropEntry (patch : PatchId) (ids : List ParticleId)
    (state : Nat × Array (Option Location)) (n : Nat) :
    slot (ids.foldl (dropEntry patch) state).2 n =
      if n ∈ ids.map UInt32.toNat then (slot state.2 n).filter (fun loc => loc.patch ≠ patch)
      else slot state.2 n := by
  induction ids generalizing state with
  | nil => simp
  | cons id rest ih =>
    rw [List.foldl_cons, ih, slot_dropEntry]
    by_cases hn : id.toNat = n
    · by_cases hmem : n ∈ rest.map UInt32.toNat <;> simp [hn, hmem]
    · simp [hn, Ne.symm hn]

/-! ## The calls -/

variable {d : Directory}

theorem firstMisfit_eq_none_iff : d.firstMisfit ids = none ↔ ∀ id ∈ ids, id.toNat < d.capacity := by
  simp [firstMisfit]

theorem mem_of_firstMisfit (h : d.firstMisfit ids = some id) : id ∈ ids :=
  List.mem_of_find?_eq_some h

theorem le_of_firstMisfit (h : d.firstMisfit ids = some id) : d.capacity ≤ id.toNat :=
  of_decide_eq_true (List.find?_some (p := fun id : ParticleId => decide (d.capacity ≤ id.toNat)) h)

/-- All that `register` can do. -/
inductive Registration (d : Directory) (patch : PatchId) (ids : List ParticleId) :
    Except Failure Nat × Directory → Prop where
  /-- a number does not fit, and nothing changes -/
  | misfit {id : ParticleId} (listed : id ∈ ids) (beyond : d.capacity ≤ id.toNat) :
      Registration d patch ids (.error (.refused (.outOfRange id d.capacity)), d)
  /-- the patch may enter nothing, and nothing changes -/
  | reserved (reserved : patch = PatchId.reserved) :
      Registration d patch ids (.error (.fault .reservedPatch), d)
  /-- the whole list is entered -/
  | entered (fits : ∀ id ∈ ids, id.toNat < d.capacity) (unreserved : patch ≠ PatchId.reserved) :
      Registration d patch ids (.ok ids.length, ⟨putAll patch 0 ids d.table, false⟩)

theorem registration (d : Directory) (patch : PatchId) (ids : List ParticleId) :
    Registration d patch ids (d.register patch ids) := by
  unfold register
  split
  · next id hmisfit => exact .misfit (mem_of_firstMisfit hmisfit) (le_of_firstMisfit hmisfit)
  · next hfits =>
    split
    · next hpatch => exact .reserved hpatch
    · next hpatch => exact .entered (firstMisfit_eq_none_iff.mp hfits) hpatch

/-- The directory after a patch gave a list up that fits. -/
def released (d : Directory) (patch : PatchId) (ids : List ParticleId) : Directory :=
  { d with table := (ids.foldl (dropEntry patch) (0, d.table)).2 }

/-- All that `unregister` can do. -/
inductive Release (d : Directory) (patch : PatchId) (ids : List ParticleId) :
    Except Failure Nat × Directory → Prop where
  /-- a number does not fit, and nothing changes -/
  | misfit {id : ParticleId} (listed : id ∈ ids) (beyond : d.capacity ≤ id.toNat) :
      Release d patch ids (.error (.refused (.outOfRange id d.capacity)), d)
  /-- the whole list is given up -/
  | released (fits : ∀ id ∈ ids, id.toNat < d.capacity) (count : Nat) :
      Release d patch ids (.ok count, d.released patch ids)

theorem release (d : Directory) (patch : PatchId) (ids : List ParticleId) :
    Release d patch ids (d.unregister patch ids) := by
  unfold unregister
  split
  · next id hmisfit => exact .misfit (mem_of_firstMisfit hmisfit) (le_of_firstMisfit hmisfit)
  · next hfits => exact .released (firstMisfit_eq_none_iff.mp hfits) _

@[simp] theorem capacity_released (d : Directory) (patch : PatchId) (ids : List ParticleId) :
    (d.released patch ids).capacity = d.capacity := size_foldl_dropEntry patch ids (0, d.table)

theorem slot_released (d : Directory) (patch : PatchId) (ids : List ParticleId) (n : Nat) :
    slot (d.released patch ids).table n =
      if n ∈ ids.map UInt32.toNat then (slot d.table n).filter (fun loc => loc.patch ≠ patch)
      else slot d.table n := slot_foldl_dropEntry patch ids (0, d.table) n

/-- A particle is found if the directory is not cleared and has an entry of it. -/
theorem lookup_eq_ok_iff : d.lookup id = .ok loc ↔ d.cleared = false ∧ d.entry id = some loc := by
  rw [lookup]
  split
  · next hle =>
    have hnone : d.entry id = none := slot_of_size_le hle
    simp [hnone]
  · split
    · next hcleared => simp [hcleared]
    · next hcleared =>
      cases hentry : d.entry id <;> simp [Bool.eq_false_iff.mpr hcleared]

/-! ## The directories there are -/

/-- A directory that calls on an allocated one lead to. -/
inductive Reached : Directory → Prop where
  /-- nothing was called -/
  | allocate (capacity : Nat) : Reached (.allocate capacity)
  /-- a list was entered, or refused -/
  | register {d : Directory} (patch : PatchId) (ids : List ParticleId) (hd : Reached d) :
      Reached (d.register patch ids).2
  /-- a list was given up, or refused -/
  | unregister {d : Directory} (patch : PatchId) (ids : List ParticleId) (hd : Reached d) :
      Reached (d.unregister patch ids).2
  /-- the directory was cleared -/
  | clear {d : Directory} (hd : Reached d) : Reached d.clear

/-- What holds of every directory that calls lead to. -/
structure Tidy (d : Directory) : Prop where
  /-- a cleared directory has no entries -/
  clean : d.cleared = true → ∀ n, slot d.table n = none
  /-- entries are at particle numbers -/
  numbered : ∀ n loc, slot d.table n = some loc → n < UInt32.size

namespace Tidy

theorem register (h : d.Tidy) (patch : PatchId) (ids : List ParticleId) :
    (d.register patch ids).2.Tidy := by
  have hall := d.registration patch ids
  generalize d.register patch ids = result at hall
  cases hall with
  | misfit => exact h
  | reserved => exact h
  | entered hfits =>
    refine ⟨nofun, fun n loc hslot => ?_⟩
    rw [slot_putAll patch 0 n hfits, Option.or_eq_some_iff] at hslot
    rcases hslot with hplaced | ⟨-, hold⟩
    · obtain ⟨-, i, id, -, rfl, -⟩ := placed_eq_some hplaced
      exact id.toNat_lt_size
    · exact h.numbered n loc hold

theorem released (h : d.Tidy) (patch : PatchId) (ids : List ParticleId) :
    (d.released patch ids).Tidy where
  clean := by
    intro hcleared n
    rw [slot_released, h.clean hcleared n]
    split <;> rfl
  numbered := by
    intro n loc hslot
    rw [slot_released] at hslot
    split at hslot
    · exact h.numbered n loc (Option.eq_some_of_filter_eq_some hslot)
    · exact h.numbered n loc hslot

theorem unregister (h : d.Tidy) (patch : PatchId) (ids : List ParticleId) :
    (d.unregister patch ids).2.Tidy := by
  have hall := d.release patch ids
  generalize d.unregister patch ids = result at hall
  cases hall with
  | misfit => exact h
  | released => exact h.released patch ids

end Tidy

theorem Reached.tidy (h : d.Reached) : d.Tidy := by
  induction h with
  | allocate capacity => exact ⟨nofun, by simp [Directory.allocate]⟩
  | register patch ids _ ih => exact ih.register patch ids
  | unregister patch ids _ ih => exact ih.unregister patch ids
  | clear _ _ => exact ⟨by simp [Directory.clear], by simp [Directory.clear]⟩

/-! ## Counting -/

theorem toList_eq_map_slot (table : Array (Option Location)) :
    table.toList = (List.range table.size).map (slot table) := by
  refine List.ext_getElem (by simp) fun n hn _ => ?_
  have hn : n < table.size := hn
  simp [slot, hn]

/-- If the entries that hold a location are those of certain different particles, then there are as
many of them as there are particles. -/
theorem assigned_eq_length (hnodup : ids.Nodup)
    (h : ∀ n, (slot d.table n).isSome ↔ n ∈ ids.map UInt32.toNat) : d.assigned = ids.length := by
  have hfilter : ((List.range d.table.size).filter fun n => (slot d.table n).isSome).Perm
      (ids.map UInt32.toNat) := by
    refine (List.perm_ext_iff_of_nodup (List.nodup_range.filter _)
      (hnodup.map fun _ _ => UInt32.toNat_inj.mp)).mpr fun n => ?_
    rw [List.mem_filter, h, List.mem_range, and_iff_right_iff_imp, ← h]
    intro hsome
    obtain ⟨loc, hloc⟩ := Option.isSome_iff_exists.mp hsome
    exact lt_size_of_slot hloc
  calc d.assigned
      = ((List.range d.table.size).map (slot d.table)).countP Option.isSome := by
        rw [← toList_eq_map_slot, assigned, Array.countP_toList]
    _ = ((List.range d.table.size).filter fun n => (slot d.table n).isSome).length := by
        rw [List.countP_map, List.countP_eq_length_filter]
        rfl
    _ = ids.length := by rw [hfilter.length_eq, List.length_map]

end Directory

end PatchDynamics
