import Mathlib.SetTheory.Cardinal.NatCard
import Mathlib.Data.Set.Card
import PatchDynamics.Proofs.Directory.Entries
import PatchDynamics.Proofs.Trace

/-!
# The record of a directory

A directory answers from its table, and what is in the table is the outcome of all calls so far:
lists entered over each other, lists given up by patches that no longer hold them, clearings, tables
put up anew, and calls that were refused. The main statement, `record_exact`, says the answers in
terms of the calls and their outcomes alone, without the table:

* `Call`, `perform`, `Event`, `history` — the calls, and what is seen of each call of a run;
* `capacityOf`, `ClearedBy`, `HeldAt` — what the events tell of the capacity, of clearing, and of
  where a particle is;
* `Recorded` — the invariant: the table holds exactly what the events tell.
-/

namespace PatchDynamics

namespace Directory

/-! ## Calls and events -/

/-- One call on a directory. -/
inductive Call where
  /-- puts up a new table -/
  | allocate (capacity : Nat)
  /-- enters the list of a patch -/
  | register (patch : PatchId) (ids : List ParticleId)
  /-- gives up the list of a patch -/
  | unregister (patch : PatchId) (ids : List ParticleId)
  /-- looks a particle up -/
  | lookup (id : ParticleId)
  /-- empties the table -/
  | clear
  /-- counts the entries -/
  | census

/-- A list that is entered is not longer than indices reach. -/
def Call.Indexable : Call → Prop
  | .register _ ids => ids.length < UInt32.size
  | _ => True

/-- What a caller gets from a call that does not fail. -/
inductive Answer where
  /-- a number of entries -/
  | count (n : Nat)
  /-- where a particle is -/
  | location (loc : Location)
  /-- the count of all entries -/
  | census (c : Census)
  /-- nothing to tell -/
  | done

/-- Makes a call. A table that no address space holds leaves the directory as it was. -/
def perform (d : Directory) : Call → Except Failure Answer × Directory
  | .allocate capacity =>
    match allocate? capacity with
    | .ok fresh => (.ok .done, fresh)
    | .error f => (.error f, d)
  | .register patch ids => ((d.register patch ids).1.map .count, (d.register patch ids).2)
  | .unregister patch ids => ((d.unregister patch ids).1.map .count, (d.unregister patch ids).2)
  | .lookup id => (((d.lookup id).mapError .refused).map .location, d)
  | .clear => (.ok .done, d.clear)
  | .census => (.ok (.census d.census), d)

/-- What is seen of one call from outside. -/
structure Event where
  /-- the call -/
  call : Call
  /-- what the caller got -/
  outcome : Except Failure Answer

/-- What is seen of a call on this directory. -/
def event (d : Directory) (c : Call) : Event := ⟨c, (d.perform c).1⟩

/-- The directory after some calls. -/
def after (d : Directory) (calls : List Call) : Directory :=
  calls.foldl (fun d c => (d.perform c).2) d

/-- What is seen of each of some calls, in order. -/
def history : Directory → List Call → List Event := trace (fun d c => (d.perform c).2) event

/-! ## Reading a history -/

namespace Event

/-- The capacity of the new table, if the event puts one up. -/
def allocates? (e : Event) : Option Nat :=
  match e.call, e.outcome with
  | .allocate capacity, .ok _ => some capacity
  | _, _ => none

/-- The patch and its list, if the event enters one. -/
def enters? (e : Event) : Option (PatchId × List ParticleId) :=
  match e.call, e.outcome with
  | .register patch ids, .ok _ => some (patch, ids)
  | _, _ => none

/-- The patch and its list, if the event gives one up. -/
def drops? (e : Event) : Option (PatchId × List ParticleId) :=
  match e.call, e.outcome with
  | .unregister patch ids, .ok _ => some (patch, ids)
  | _, _ => none

/-- Whether the event clears the directory. -/
def clears (e : Event) : Bool :=
  match e.call, e.outcome with
  | .clear, .ok _ => true
  | _, _ => false

/-- The event does not lift a clearing. -/
def KeepsCleared (e : Event) : Prop := e.allocates? = none ∧ e.enters? = none

/-- The event does not touch what a patch has entered for a particle: it empties no table, enters no
list with the particle, and the patch does not give the particle up. -/
structure Keeps (patch : PatchId) (id : ParticleId) (e : Event) : Prop where
  /-- no table is put up -/
  unallocated : e.allocates? = none
  /-- nothing is cleared -/
  uncleared : e.clears = false
  /-- the particle is not entered again, by whatever patch -/
  unentered : ∀ p ids, e.enters? = some (p, ids) → id ∉ ids
  /-- the patch does not give the particle up -/
  undropped : ∀ ids, e.drops? = some (patch, ids) → id ∉ ids

end Event

/-- The capacity after some events: that of the latest table put up. -/
def capacityOf (events : List Event) : Nat :=
  ((events.filterMap Event.allocates?).getLast?).getD 0

/-- The directory was cleared, and no list was entered and no table put up since. -/
def ClearedBy (events : List Event) : Prop := Since (·.clears = true) Event.KeepsCleared events

/-- A list has a particle at an index for the last time. -/
def LastAt (ids : List ParticleId) (id : ParticleId) (index : Nat) : Prop :=
  ids[index]? = some id ∧ ∀ later, index < later → ids[later]? ≠ some id

/-- Some patch entered a list with the particle, last at this index, and nothing that came since
touched that. -/
def HeldAt (events : List Event) (id : ParticleId) (loc : Location) : Prop :=
  Since (fun e => ∃ ids, e.enters? = some (loc.patch, ids) ∧ LastAt ids id loc.index.toNat)
    (Event.Keeps loc.patch id) events

/-- What a look-up answers according to the events before it. -/
structure Reports (events : List Event) (id : ParticleId) (answer : Except Refusal Location) :
    Prop where
  /-- it is refused if the particle does not fit, whatever else -/
  misfit : answer = .error (.outOfRange id (capacityOf events)) ↔ capacityOf events ≤ id.toNat
  /-- of a particle that fits, it is refused if the directory was cleared -/
  cleared : id.toNat < capacityOf events →
    (answer = .error (.directoryCleared id) ↔ ClearedBy events)
  /-- otherwise the particle is found where it is held -/
  found : id.toNat < capacityOf events → ¬ ClearedBy events →
    ∀ loc, answer = .ok loc ↔ HeldAt events id loc
  /-- and it is unassigned if it is held nowhere -/
  unassigned : id.toNat < capacityOf events → ¬ ClearedBy events →
    (answer = .error (.unassigned id) ↔ ∀ loc, ¬ HeldAt events id loc)

/-! ## One more event -/

variable {d : Directory} {events : List Event} {e : Event} {patch : PatchId}
  {ids : List ParticleId} {id : ParticleId} {loc : Location}

theorem capacityOf_concat :
    capacityOf (events ++ [e]) = e.allocates?.getD (capacityOf events) := by
  rw [capacityOf, capacityOf, List.filterMap_append]
  cases h : e.allocates? <;> simp [h]

theorem clearedBy_concat :
    ClearedBy (events ++ [e]) ↔ e.clears = true ∨ ClearedBy events ∧ e.KeepsCleared :=
  since_concat

theorem heldAt_concat :
    HeldAt (events ++ [e]) id loc ↔
      (∃ ids, e.enters? = some (loc.patch, ids) ∧ LastAt ids id loc.index.toNat) ∨
      HeldAt events id loc ∧ e.Keeps loc.patch id :=
  since_concat

/-- An event that neither puts up a table, nor clears, enters or gives up, tells nothing new. -/
structure Event.Idle (e : Event) : Prop where
  /-- no table is put up -/
  allocates : e.allocates? = none
  /-- nothing is cleared -/
  clears : e.clears = false
  /-- nothing is entered -/
  enters : e.enters? = none
  /-- nothing is given up -/
  drops : e.drops? = none

theorem Event.Idle.keeps (h : e.Idle) : e.Keeps patch id := by
  refine ⟨h.allocates, h.clears, fun p ids hids => ?_, fun ids hids => ?_⟩
  · rw [h.enters] at hids
    cases hids
  · rw [h.drops] at hids
    cases hids

/-! ## Where a list has a particle -/

theorem lastAt_cons_zero {x : ParticleId} : LastAt (x :: ids) id 0 ↔ x = id ∧ id ∉ ids := by
  refine and_congr (by simp) ⟨fun h hmem => ?_, fun h later hlater hget => ?_⟩
  · obtain ⟨i, hi⟩ := List.mem_iff_getElem?.mp hmem
    exact h (i + 1) (Nat.succ_pos i) (by simpa using hi)
  · obtain ⟨i, rfl⟩ := Nat.exists_eq_succ_of_ne_zero (Nat.ne_of_gt hlater)
    exact h (List.mem_of_getElem? (by simpa using hget))

theorem lastAt_cons_succ {x : ParticleId} {index : Nat} :
    LastAt (x :: ids) id (index + 1) ↔ LastAt ids id index := by
  refine and_congr (by simp) ⟨fun h later hlater => ?_, fun h later hlater => ?_⟩
  · simpa using h (later + 1) (Nat.succ_lt_succ hlater)
  · obtain ⟨i, rfl⟩ := Nat.exists_eq_succ_of_ne_zero (Nat.ne_of_gt (Nat.zero_lt_of_lt hlater))
    simpa using h i (Nat.lt_of_succ_lt_succ hlater)

/-- **Where entering a list puts a particle**: at the last index that the list has it at. -/
theorem placed_eq_some_iff_lastAt {start : Nat} :
    placed patch start ids id.toNat = some loc ↔
      ∃ index, LastAt ids id index ∧ loc = ⟨patch, UInt32.ofNat (start + index)⟩ := by
  induction ids generalizing start with
  | nil => simp [placed, LastAt]
  | cons x rest ih =>
    have hnone : placed patch (start + 1) rest id.toNat = none ↔ id ∉ rest := by
      rw [placed_eq_none_iff]
      simp [UInt32.toNat_inj]
    rw [placed, Option.or_eq_some_iff, ih, hnone, Option.ite_none_right_eq_some, UInt32.toNat_inj]
    constructor
    · rintro (⟨index, hlast, rfl⟩ | ⟨hlate, hfirst, hloc⟩)
      · refine ⟨index + 1, lastAt_cons_succ.mpr hlast, ?_⟩
        rw [Nat.add_right_comm, Nat.add_assoc]
      · exact ⟨0, lastAt_cons_zero.mpr ⟨hfirst, hlate⟩, (Option.some.inj hloc).symm⟩
    · rintro ⟨index, hlast, rfl⟩
      cases index with
      | zero =>
        obtain ⟨hfirst, hlate⟩ := lastAt_cons_zero.mp hlast
        exact .inr ⟨hlate, hfirst, rfl⟩
      | succ index =>
        refine .inl ⟨index, lastAt_cons_succ.mp hlast, ?_⟩
        rw [Nat.add_right_comm, Nat.add_assoc]

/-- As far as indices reach, the index entered is the last one itself. -/
theorem placed_eq_some_iff_of_length (hlength : ids.length < UInt32.size) :
    placed patch 0 ids id.toNat = some loc ↔
      loc.patch = patch ∧ LastAt ids id loc.index.toNat := by
  rw [placed_eq_some_iff_lastAt]
  constructor
  · rintro ⟨index, hlast, rfl⟩
    obtain ⟨hlt, -⟩ := List.getElem?_eq_some_iff.mp hlast.1
    refine ⟨rfl, ?_⟩
    rw [Nat.zero_add, UInt32.toNat_ofNat_of_lt' (hlt.trans hlength)]
    exact hlast
  · rintro ⟨rfl, hlast⟩
    exact ⟨loc.index.toNat, hlast, by simp⟩

/-! ## The invariant -/

/-- The directory holds exactly what the events tell. -/
structure Recorded (d : Directory) (events : List Event) : Prop where
  /-- the table has the capacity of the latest one put up -/
  capacity : d.capacity = capacityOf events
  /-- look-ups are refused while the directory is cleared -/
  cleared : d.cleared = true ↔ ClearedBy events
  /-- an entry is where the particle is held -/
  entries : ∀ id loc, d.entry id = some loc ↔ HeldAt events id loc
  /-- calls on an allocated directory lead to it -/
  reached : d.Reached

theorem recorded_empty : empty.Recorded [] where
  capacity := rfl
  cleared := ⟨nofun, fun h => absurd h not_since_nil⟩
  entries := fun id loc => by
    refine ⟨fun h => ?_, fun h => absurd h not_since_nil⟩
    rw [← slot_toNat, empty, allocate, slot_replicate_none] at h
    cases h
  reached := .allocate 0

/-- A table that is allocated is the empty one. -/
theorem eq_allocate_of_ok {capacity : Nat} {fresh : Directory}
    (h : allocate? capacity = .ok fresh) : allocate capacity = fresh := by
  unfold allocate? at h
  cases hroom : Failure.ensureAddressable capacity 8 with
  | error f =>
    rw [hroom] at h
    cases h
  | ok _ =>
    rw [hroom] at h
    exact Except.ok.inj h

namespace Recorded

theorem idle (h : d.Recorded events) (he : e.Idle) : d.Recorded (events ++ [e]) where
  capacity := by
    rw [capacityOf_concat, he.allocates]
    exact h.capacity
  cleared := by
    rw [clearedBy_concat, he.clears, h.cleared]
    simp [Event.KeepsCleared, he.allocates, he.enters]
  entries := fun id loc => by
    rw [heldAt_concat, h.entries, he.enters]
    simp [he.keeps]
  reached := h.reached

theorem allocate (h : d.Recorded events) (capacity : Nat) :
    (d.perform (.allocate capacity)).2.Recorded (events ++ [d.event (.allocate capacity)]) := by
  rw [event, perform]
  cases hfits : allocate? capacity with
  | error f => exact h.idle ⟨rfl, rfl, rfl, rfl⟩
  | ok fresh =>
    obtain rfl := eq_allocate_of_ok hfits
    refine ⟨?_, ?_, fun id loc => ?_, .allocate capacity⟩
    · rw [capacityOf_concat, capacity_allocate]
      rfl
    · rw [clearedBy_concat]
      simp [Directory.allocate, Event.clears, Event.KeepsCleared, Event.allocates?]
    · -- the new table is empty, and the event touches whatever was held
      rw [heldAt_concat, ← slot_toNat, Directory.allocate, slot_replicate_none]
      constructor
      · intro hfound
        cases hfound
      rintro (⟨ids, henters, -⟩ | ⟨-, hkeeps⟩)
      · cases henters
      · cases hkeeps.unallocated

theorem register (h : d.Recorded events) (patch : PatchId) {ids : List ParticleId}
    (hlength : ids.length < UInt32.size) :
    (d.perform (.register patch ids)).2.Recorded (events ++ [d.event (.register patch ids)]) := by
  have hreached := h.reached.register patch ids
  have hall := d.registration patch ids
  rw [event, perform]
  generalize d.register patch ids = result at hall hreached
  cases hall with
  | misfit => exact h.idle ⟨rfl, rfl, rfl, rfl⟩
  | reserved => exact h.idle ⟨rfl, rfl, rfl, rfl⟩
  | entered fits unreserved =>
    refine ⟨?_, ?_, fun id loc => ?_, hreached⟩
    · rw [capacityOf_concat]
      exact (size_putAll ..).trans h.capacity
    · rw [clearedBy_concat]
      simp [Event.clears, Event.KeepsCleared, Event.enters?, Except.map]
    · have hslot := slot_putAll patch 0 id.toNat fits
      rw [← slot_toNat, hslot, Option.or_eq_some_iff, placed_eq_some_iff_of_length hlength,
        placed_eq_none_iff, slot_toNat, h.entries, heldAt_concat]
      have hmem : id.toNat ∉ ids.map UInt32.toNat ↔ id ∉ ids := by simp [UInt32.toNat_inj]
      rw [hmem]
      constructor
      · rintro (⟨rfl, hlast⟩ | ⟨hother, hheld⟩)
        · exact .inl ⟨ids, rfl, hlast⟩
        · refine .inr ⟨hheld, rfl, rfl, fun p ids' henters => ?_, nofun⟩
          cases henters
          exact hother
      · rintro (⟨ids', henters, hlast⟩ | ⟨hheld, hkeeps⟩)
        · cases henters
          exact .inl ⟨rfl, hlast⟩
        · exact .inr ⟨hkeeps.unentered patch ids rfl, hheld⟩

theorem unregister (h : d.Recorded events) (patch : PatchId) (ids : List ParticleId) :
    (d.perform (.unregister patch ids)).2.Recorded
      (events ++ [d.event (.unregister patch ids)]) := by
  have hreached := h.reached.unregister patch ids
  have hall := d.release patch ids
  rw [event, perform]
  generalize d.unregister patch ids = result at hall hreached
  cases hall with
  | misfit => exact h.idle ⟨rfl, rfl, rfl, rfl⟩
  | released fits count =>
    refine ⟨?_, ?_, fun id loc => ?_, hreached⟩
    · rw [capacityOf_concat]
      exact (capacity_released d patch ids).trans h.capacity
    · rw [clearedBy_concat]
      simp [Event.clears, Event.KeepsCleared, Event.enters?, Event.allocates?,
        Directory.released, h.cleared]
    · have hmem : id.toNat ∈ ids.map UInt32.toNat ↔ id ∈ ids := by simp [UInt32.toNat_inj]
      rw [← slot_toNat, slot_released, slot_toNat, heldAt_concat]
      simp only [hmem]
      constructor
      · intro hentry
        refine .inr ?_
        split at hentry
        · -- the entry stays because it names another patch
          obtain ⟨hentry, hother⟩ := Option.filter_eq_some_iff.mp hentry
          refine ⟨(h.entries id loc).mp hentry, rfl, rfl, nofun, fun ids' hdrops => ?_⟩
          cases hdrops
          simp at hother
        · next hout =>
          refine ⟨(h.entries id loc).mp hentry, rfl, rfl, nofun, fun ids' hdrops => ?_⟩
          cases hdrops
          exact hout
      · rintro (⟨ids', henters, -⟩ | ⟨hheld, hkeeps⟩)
        · cases henters
        · have hentry := (h.entries id loc).mpr hheld
          split
          · next hin =>
            rw [hentry, Option.filter_some, if_pos (decide_eq_true ?_)]
            rintro rfl
            exact hkeeps.undropped ids rfl hin
          · exact hentry

theorem clear (h : d.Recorded events) : d.clear.Recorded (events ++ [d.event .clear]) where
  capacity := by
    rw [capacityOf_concat, capacity_clear]
    exact h.capacity
  cleared := by
    rw [clearedBy_concat]
    simp [Directory.clear, event, perform, Event.clears]
  entries := fun id loc => by
    rw [heldAt_concat, ← slot_toNat, Directory.clear, slot_replicate_none]
    constructor
    · intro hfound
      cases hfound
    rintro (⟨ids, henters, -⟩ | ⟨-, hkeeps⟩)
    · cases henters
    · cases hkeeps.uncleared
  reached := h.reached.clear

/-- **One call keeps the record.** -/
theorem perform (h : d.Recorded events) {c : Call} (hc : c.Indexable) :
    (d.perform c).2.Recorded (events ++ [d.event c]) := by
  cases c with
  | allocate capacity => exact h.allocate capacity
  | register patch ids => exact h.register patch hc
  | unregister patch ids => exact h.unregister patch ids
  | lookup id => exact h.idle ⟨rfl, rfl, rfl, rfl⟩
  | clear => exact h.clear
  | census => exact h.idle ⟨rfl, rfl, rfl, rfl⟩

/-- A run of calls keeps the record. -/
theorem after (h : d.Recorded events) {calls : List Call} (hcalls : ∀ c ∈ calls, c.Indexable) :
    (d.after calls).Recorded (events ++ d.history calls) := by
  induction calls generalizing d events with
  | nil => exact (List.append_nil events).symm ▸ h
  | cons c calls ih =>
    rw [List.forall_mem_cons] at hcalls
    have hnext := ih (h.perform hcalls.1) hcalls.2
    rw [List.append_assoc] at hnext
    exact hnext

/-! ## What the record tells -/

/-- A particle that is held fits. -/
theorem lt_of_heldAt (h : d.Recorded events) (hheld : HeldAt events id loc) :
    id.toNat < capacityOf events :=
  h.capacity ▸ lt_size_of_slot ((h.entries id loc).mpr hheld)

/-- A look-up answers what the events tell. -/
theorem reports (h : d.Recorded events) (id : ParticleId) : Reports events id (d.lookup id) := by
  by_cases hfits : d.capacity ≤ id.toNat
  · have hfar : capacityOf events ≤ id.toNat := h.capacity ▸ hfits
    rw [lookup, if_pos hfits, h.capacity]
    exact ⟨iff_of_true rfl hfar, fun hlt => absurd hfar (Nat.not_le_of_lt hlt),
      fun hlt => absurd hfar (Nat.not_le_of_lt hlt), fun hlt => absurd hfar (Nat.not_le_of_lt hlt)⟩
  have hnear : ¬ capacityOf events ≤ id.toNat := h.capacity ▸ hfits
  rw [lookup, if_neg hfits]
  by_cases hcleared : d.cleared = true
  · have hevents := h.cleared.mp hcleared
    rw [if_pos hcleared]
    exact ⟨iff_of_false (by simp) hnear, fun _ => iff_of_true rfl hevents,
      fun _ hnot => absurd hevents hnot, fun _ hnot => absurd hevents hnot⟩
  have hevents : ¬ ClearedBy events := fun hc => hcleared (h.cleared.mpr hc)
  rw [if_neg hcleared]
  cases hentry : d.entry id with
  | none =>
    have hnowhere : ∀ loc, ¬ HeldAt events id loc := by
      intro loc hheld
      have := (h.entries id loc).mpr hheld
      rw [hentry] at this
      cases this
    exact ⟨iff_of_false (by simp) hnear, fun _ => iff_of_false (by simp) hevents,
      fun _ _ loc => iff_of_false (by simp) (hnowhere loc), fun _ _ => iff_of_true rfl hnowhere⟩
  | some held =>
    have hsome : ∀ loc, (.ok held : Except Refusal Location) = .ok loc ↔ HeldAt events id loc := by
      intro loc
      rw [← h.entries, hentry, Except.ok.injEq, Option.some.injEq]
    refine ⟨iff_of_false (by simp) hnear, fun _ => iff_of_false (by simp) hevents,
      fun _ _ => hsome, ?_⟩
    exact fun _ _ => iff_of_false (by simp) fun hnone => hnone held ((hsome held).mp rfl)

end Recorded

/-! ## Counting -/

/-- Emptying one entry counts exactly what it takes out of the table. -/
theorem count_dropEntry (patch : PatchId) (state : Nat × Array (Option Location))
    (id : ParticleId) :
    (dropEntry patch state id).1 + (dropEntry patch state id).2.countP Option.isSome =
      state.1 + state.2.countP Option.isSome := by
  obtain ⟨count, table⟩ := state
  rw [dropEntry]
  split
  · next loc hget =>
    obtain ⟨hlt, hentry⟩ := Array.getElem?_eq_some_iff.mp hget
    split
    · -- the entry is one of those counted before, and is none afterwards
      have hpos : 0 < table.countP Option.isSome :=
        Array.countP_pos_iff.mpr ⟨_, Array.getElem_mem hlt, by rw [hentry]; rfl⟩
      have hset := Array.countP_set (p := Option.isSome) (a := (none : Option Location)) hlt
      rw [hentry] at hset
      rw [Array.setIfInBounds, dif_pos hlt, hset]
      simp only [Option.isSome_some, Option.isSome_none, if_true, Bool.false_eq_true, if_false]
      omega
    · rfl
  · rfl

/-- Giving up a list counts exactly what it takes out of the table. -/
theorem count_foldl_dropEntry (patch : PatchId) (ids : List ParticleId)
    (state : Nat × Array (Option Location)) :
    (ids.foldl (dropEntry patch) state).1 +
        (ids.foldl (dropEntry patch) state).2.countP Option.isSome =
      state.1 + state.2.countP Option.isSome := by
  induction ids generalizing state with
  | nil => rfl
  | cons id rest ih => rw [List.foldl_cons, ih, count_dropEntry]

/-- **A list that is given up** and fits is counted by the entries that it loses. -/
theorem unregister_of_fits (patch : PatchId) (fits : ∀ id ∈ ids, id.toNat < d.capacity) :
    ∃ n, (d.unregister patch ids).1 = .ok n ∧
      n + (d.unregister patch ids).2.assigned = d.assigned := by
  have hcount := count_foldl_dropEntry patch ids (0, d.table)
  rw [unregister, firstMisfit_eq_none_iff.mpr fits]
  exact ⟨_, rfl, hcount.trans (Nat.zero_add _)⟩

theorem register_of_fits (fits : ∀ id ∈ ids, id.toNat < d.capacity)
    (unreserved : patch ≠ PatchId.reserved) : (d.register patch ids).1 = .ok ids.length := by
  rw [register, firstMisfit_eq_none_iff.mpr fits]
  dsimp only
  rw [if_neg unreserved]

/-- The first particle that does not fit is the one that is named. -/
theorem firstMisfit_eq_some {early late : List ParticleId}
    (hearly : ∀ x ∈ early, x.toNat < d.capacity) (hid : d.capacity ≤ id.toNat) :
    d.firstMisfit (early ++ id :: late) = some id := by
  have hnone : early.find? (fun x => decide (d.capacity ≤ x.toNat)) = none :=
    firstMisfit_eq_none_iff.mpr hearly
  rw [firstMisfit, List.find?_append, hnone, Option.none_or, List.find?_cons_of_pos]
  exact decide_eq_true hid

/-- The particles that fit and have an entry are as many as there are entries. -/
theorem assigned_eq_ncard (h : d.Reached) :
    d.assigned = {id : ParticleId | ∃ loc, d.entry id = some loc}.ncard := by
  have hfinite : Finite ParticleId :=
    Finite.of_injective UInt32.toFin fun _ _ => UInt32.toFin_inj.mp
  have hset := Set.toFinite {id : ParticleId | ∃ loc, d.entry id = some loc}
  rw [Set.ncard_eq_toFinset_card _ hset, ← Finset.length_toList]
  refine assigned_eq_length (Finset.nodup_toList _) fun n => ?_
  simp only [List.mem_map, Finset.mem_toList, Set.Finite.mem_toFinset, Set.mem_ofPred_eq,
    Option.isSome_iff_exists]
  constructor
  · rintro ⟨loc, hslot⟩
    -- entries are at particle numbers
    have hn := h.tidy.numbered n loc hslot
    refine ⟨UInt32.ofNat n, ⟨loc, ?_⟩, UInt32.toNat_ofNat_of_lt' hn⟩
    rw [← slot_toNat, UInt32.toNat_ofNat_of_lt' hn, hslot]
  · rintro ⟨id, ⟨loc, hentry⟩, rfl⟩
    exact ⟨loc, hentry⟩

/-- What a count of all entries is according to the events before it. -/
structure Counts (events : List Event) (c : Census) : Prop where
  /-- the capacity is that of the latest table put up -/
  capacity : c.capacity = capacityOf events
  /-- the entries that hold a location are those of the particles that are held -/
  assigned : c.assigned =
    {id : ParticleId | id.toNat < capacityOf events ∧ ∃ loc, HeldAt events id loc}.ncard
  /-- every entry is counted once -/
  total : c.assigned + c.unassigned = c.capacity
  /-- look-ups are refused while the directory is cleared -/
  cleared : c.cleared = true ↔ ClearedBy events
  /-- a cleared directory holds nothing -/
  empty : c.cleared = true → c.assigned = 0

/-- A count of all entries counts what the events tell. -/
theorem Recorded.counts (h : d.Recorded events) : Counts events d.census where
  capacity := h.capacity
  assigned := by
    have hheld : ∀ id, (id.toNat < capacityOf events ∧ ∃ loc, HeldAt events id loc) ↔
        ∃ loc, d.entry id = some loc := by
      intro id
      simp only [h.entries]
      exact ⟨And.right, fun ⟨loc, hheld⟩ => ⟨h.lt_of_heldAt hheld, loc, hheld⟩⟩
    simp only [hheld]
    exact assigned_eq_ncard h.reached
  total := Nat.add_sub_cancel' (Array.countP_le_size ..)
  cleared := h.cleared
  empty := by
    intro hcleared
    refine Array.countP_eq_zero.mpr fun entry hmem => ?_
    obtain ⟨n, hn, hget⟩ := Array.getElem_of_mem hmem
    have hslot := h.reached.tidy.clean hcleared n
    rw [slot, Array.getElem?_eq_getElem hn, hget] at hslot
    rw [show entry = none from hslot]
    exact Bool.false_ne_true

/-! ## Exactness -/

/-- **A directory is the record of its calls.** Take a new directory and any run of calls: tables
put up anew, lists entered and given up by any patches, with repetitions and with particles that do
not fit, look-ups, clearings and counts. Afterwards a look-up answers where the particle was entered
last, if nothing undid that; a list with a particle that does not fit is refused and changes
nothing, and any other list is entered and given up; giving up counts the entries that are lost; and
a count of all entries counts the particles that are held. -/
theorem record_exact {calls : List Call} (hcalls : ∀ c ∈ calls, c.Indexable) :
    let d := empty.after calls
    let events := empty.history calls
    (∀ id, Reports events id (d.lookup id)) ∧
    (∀ patch early id late, (∀ x ∈ early, x.toNat < capacityOf events) →
      capacityOf events ≤ id.toNat →
      d.register patch (early ++ id :: late) =
        (.error (.refused (.outOfRange id (capacityOf events))), d) ∧
      d.unregister patch (early ++ id :: late) =
        (.error (.refused (.outOfRange id (capacityOf events))), d)) ∧
    (∀ patch ids, (∀ id ∈ ids, id.toNat < capacityOf events) →
      (patch ≠ PatchId.reserved → (d.register patch ids).1 = .ok ids.length) ∧
      ∃ n, (d.unregister patch ids).1 = .ok n ∧
        n + (d.unregister patch ids).2.census.assigned = d.census.assigned) ∧
    Counts events d.census := by
  intro d events
  have h : d.Recorded events := recorded_empty.after hcalls
  refine ⟨h.reports, ?_, ?_, h.counts⟩
  · intro patch early id late hearly hid
    rw [← h.capacity] at hearly hid ⊢
    have hmisfit : d.firstMisfit (early ++ id :: late) = some id := firstMisfit_eq_some hearly hid
    rw [register, unregister, hmisfit]
    exact ⟨rfl, rfl⟩
  · intro patch ids hids
    rw [← h.capacity] at hids
    exact ⟨register_of_fits hids, unregister_of_fits patch hids⟩

/-- Particle 2 is entered twice in one list, then by another patch, and given up by the first, which
loses only particle 0 by that; a list that does not fit changes nothing. -/
theorem record_exact_stale :
    let calls : List Call := [
      .clear, .allocate 4,
      .register ⟨1⟩ [2, 0, 2],
      .register ⟨2⟩ [3, 2],
      .unregister ⟨1⟩ [0, 2, 0],
      .register ⟨1⟩ [0, 9],
      .lookup 2]
    (∀ c ∈ calls, c.Indexable) ∧ (empty.after calls).lookup 2 = .ok ⟨⟨2⟩, 1⟩ ∧
    HeldAt (empty.history calls) 2 ⟨⟨2⟩, 1⟩ ∧ ∀ loc, ¬ HeldAt (empty.history calls) 0 loc := by
  intro calls
  have hcalls : ∀ c ∈ calls, c.Indexable := by simp [calls, Call.Indexable, UInt32.size]
  have hcapacity : capacityOf (empty.history calls) = 4 := by decide +kernel
  have hfound : (empty.after calls).lookup 2 = .ok ⟨⟨2⟩, 1⟩ := by decide +kernel
  have hnone : (empty.after calls).lookup 0 = .error (.unassigned 0) := by decide +kernel
  obtain ⟨hreports, -⟩ := record_exact hcalls
  have hfits : ∀ id : ParticleId, id.toNat < 4 → id.toNat < capacityOf (empty.history calls) :=
    fun id hid => hcapacity ▸ hid
  have huncleared : ¬ ClearedBy (empty.history calls) := by
    intro hcleared
    have hrefused := ((hreports 2).cleared (hfits 2 (by decide))).mpr hcleared
    rw [hfound] at hrefused
    cases hrefused
  exact ⟨hcalls, hfound, ((hreports 2).found (hfits 2 (by decide)) huncleared _).mp hfound,
    ((hreports 0).unassigned (hfits 0 (by decide)) huncleared).mp hnone⟩

end Directory

end PatchDynamics
