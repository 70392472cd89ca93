import PatchDynamics.Box.Slotted
import PatchDynamics.Proofs.Box.Custody

/-!
# The roster and the table of a box

A box enters each compute in a roster and in a table, and takes it out of both again. Nothing keeps
the two together but that every call does both. This file shows that every call does, whatever came
before:

* `SlotTable.rows` — the registrations that some computes have by the table, in the order of the
  computes;
* `Agreed` — the invariant: the roster repeats no compute, and the table has slots for just these;
* `toBox` — the box with one list of registrations in place of roster and table;
* `Mirrors` — a call is answered as on the box with one list, and leaves the two in agreement.

The main statement is `slots_agree`: on a new box, every run of acts looks the same with a roster
and a table as with one list.
-/

namespace PatchDynamics

/-- The registration of a compute, by its slot. -/
def BoxSlot.row {D : Type} (slot : BoxSlot D) (id : ComputeId) : Registration D :=
  ⟨id, slot.token, slot.lastCycle, slot.value⟩

/-! ## Registrations by the table -/

namespace SlotTable

variable {D : Type} {slots slots' : SlotTable D} {ids : List ComputeId} {id : ComputeId}

/-- The registrations of those computes that have a slot. -/
def rows (slots : SlotTable D) (ids : List ComputeId) : List (Registration D) :=
  ids.filterMap fun id => slots[id]?.map (·.row id)

theorem rows_cons_of_none (h : slots[id]? = none) : slots.rows (id :: ids) = slots.rows ids :=
  List.filterMap_cons_none (by rw [h, Option.map_none])

theorem rows_cons_of_some {slot : BoxSlot D} (h : slots[id]? = some slot) :
    slots.rows (id :: ids) = slot.row id :: slots.rows ids :=
  List.filterMap_cons_some (by rw [h, Option.map_some])

theorem rows_append (slots : SlotTable D) (ids more : List ComputeId) :
    slots.rows (ids ++ more) = slots.rows ids ++ slots.rows more := List.filterMap_append

/-- The slots of other computes do not matter. -/
theorem rows_congr (h : ∀ id ∈ ids, slots'[id]? = slots[id]?) : slots'.rows ids = slots.rows ids :=
  List.filterMap_congr fun id hid => by rw [h id hid]

/-- Where the slots change, the registrations do. -/
theorem rows_map {f : ComputeId → BoxSlot D → BoxSlot D} {g : Registration D → Registration D}
    (hslots : ∀ id ∈ ids, slots'[id]? = slots[id]?.map (f id))
    (hrow : ∀ id slot, (f id slot).row id = g (slot.row id)) :
    slots'.rows ids = (slots.rows ids).map g := by
  rw [rows, rows, List.map_filterMap]
  refine List.filterMap_congr fun id hid => ?_
  rw [hslots id hid, Option.map_map, Option.map_map]
  exact congrArg (slots[id]?.map ·) (funext (hrow id))

/-- A slot that is put in for a new compute puts its registration last. -/
theorem rows_insert (h : id ∉ ids) (slot : BoxSlot D) :
    SlotTable.rows (slots.insert id slot) (ids ++ [id]) = slots.rows ids ++ [slot.row id] := by
  have hothers : SlotTable.rows (slots.insert id slot) ids = slots.rows ids :=
    rows_congr fun x hx => by
      rw [Std.HashMap.getElem?_insert, if_neg]
      exact fun hsame => h (eq_of_beq hsame ▸ hx)
  rw [rows_append, hothers, rows_cons_of_some Std.HashMap.getElem?_insert_self]
  rfl

/-- A slot that is changed changes its registration. -/
theorem rows_modify {f : BoxSlot D → BoxSlot D} {g : Registration D → Registration D}
    (hrow : ∀ slot, (f slot).row id = g (slot.row id)) :
    SlotTable.rows (slots.modify id f) ids =
      (slots.rows ids).map fun r => if r.task = id then g r else r := by
  refine rows_map (f := fun x slot => if x = id then f slot else slot) (fun x _ => ?_)
    fun x slot => ?_
  · rw [Std.HashMap.getElem?_modify]
    by_cases hx : x = id
    · subst hx
      simp
    · simp [hx, Ne.symm hx]
  · by_cases hx : x = id
    · subst hx
      rw [if_pos rfl, hrow, if_pos (show (slot.row x).task = x from rfl)]
    · rw [if_neg hx, if_neg (show ¬ (slot.row x).task = id from hx)]

/-- The computes of the registrations, if all of them have a slot. -/
theorem map_task_rows (h : ∀ id ∈ ids, id ∈ slots) :
    (slots.rows ids).map Registration.task = ids := by
  rw [rows, List.map_filterMap]
  have hsome : ∀ id ∈ ids, (slots[id]?.map (·.row id)).map Registration.task = some id := by
    intro id hid
    obtain ⟨slot, hslot⟩ := Option.isSome_iff_exists.mp
      (Std.HashMap.mem_iff_isSome_getElem?.mp (h id hid))
    rw [hslot]
    rfl
  rw [List.filterMap_congr hsome, List.filterMap_some]

/-- A slot that is taken out takes its registration out. -/
theorem rows_erase (slots : SlotTable D) (ids : List ComputeId) (id : ComputeId) :
    SlotTable.rows (slots.erase id) (ids.filter (· ≠ id)) =
      (slots.rows ids).filter fun r => r.task ≠ id := by
  rw [rows, rows, List.filterMap_filter, List.filter_filterMap]
  refine List.filterMap_congr fun x _ => ?_
  rw [Std.HashMap.getElem?_erase]
  by_cases hx : x = id
  · subst hx
    cases slots[x]? <;> simp [BoxSlot.row, Option.filter_some]
  · have hne : (id == x) = false := beq_false_of_ne (Ne.symm hx)
    rw [hne]
    cases slots[x]? <;> simp [BoxSlot.row, hx, Option.filter_some]

/-- The registration with a compute and a token is that of the compute's slot, if the token is that
of the slot. -/
theorem find?_rows (slots : SlotTable D) (ids : List ComputeId) (task : ComputeId) (token : Nat) :
    (slots.rows ids).find? (fun r => r.task = task ∧ r.token = token) =
      if task ∈ ids then (slots[task]?.filter (·.token = token)).map (·.row task) else none := by
  induction ids with
  | nil => rfl
  | cons id ids ih =>
    cases hslot : slots[id]? with
    | none =>
      rw [rows_cons_of_none hslot, ih]
      by_cases hid : id = task
      · subst hid
        rw [hslot]
        simp
      · simp [Ne.symm hid]
    | some slot =>
      rw [rows_cons_of_some hslot, List.find?_cons, ih]
      by_cases hid : id = task
      · subst hid
        rw [hslot]
        by_cases htoken : slot.token = token <;> simp [BoxSlot.row, htoken]
      · simp [BoxSlot.row, hid, Ne.symm hid]

/-! ### What a completion takes -/

theorem takeValues_cons (slots : SlotTable D) (ids : List ComputeId) (id : ComputeId) :
    takeValues (id :: ids) slots =
      (((slots[id]?.bind BoxSlot.value).map (id, ·)).toList ++
        (takeValues ids (slots.modify id BoxSlot.emptied)).1,
        (takeValues ids (slots.modify id BoxSlot.emptied)).2) := by
  rw [takeValues]
  cases slots[id]?.bind BoxSlot.value <;> rfl

/-- The values come in the order of the computes, from their registrations. -/
theorem takeValues_values (slots : SlotTable D) (hids : ids.Nodup) :
    (takeValues ids slots).1 = (slots.rows ids).filterMap fun r => r.value.map (r.task, ·) := by
  induction ids generalizing slots with
  | nil => rfl
  | cons id ids ih =>
    obtain ⟨hid, hids⟩ := List.nodup_cons.mp hids
    -- the slot that is emptied first belongs to none of the other computes
    have hothers : SlotTable.rows (slots.modify id BoxSlot.emptied) ids = slots.rows ids :=
      rows_congr fun x hx => by
        rw [Std.HashMap.getElem?_modify, if_neg]
        exact fun hsame => hid (eq_of_beq hsame ▸ hx)
    rw [takeValues_cons, ih _ hids, hothers]
    cases hslot : slots[id]? with
    | none => rw [rows_cons_of_none hslot, Option.bind_none]; rfl
    | some slot =>
      rw [rows_cons_of_some hslot, Option.bind_some]
      cases hvalue : slot.value <;> simp [BoxSlot.row, hvalue]

/-- The slots of the computes are empty afterwards, and the other slots are as before. -/
theorem getElem?_takeValues (slots : SlotTable D) (ids : List ComputeId) (id : ComputeId) :
    (takeValues ids slots).2[id]? =
      if id ∈ ids then slots[id]?.map BoxSlot.emptied else slots[id]? := by
  induction ids generalizing slots with
  | nil => rfl
  | cons x ids ih =>
    rw [takeValues_cons, ih, Std.HashMap.getElem?_modify]
    by_cases hid : x = id
    · subst hid
      cases slots[x]? <;> simp [BoxSlot.emptied]
    · simp [hid, Ne.symm hid]

/-- The registrations lose their values. -/
theorem rows_takeValues (slots : SlotTable D) (ids : List ComputeId) :
    SlotTable.rows (takeValues ids slots).2 ids =
      (slots.rows ids).map fun r => { r with value := none } :=
  rows_map (f := fun _ => BoxSlot.emptied)
    (fun id hid => by rw [getElem?_takeValues, if_pos hid]) fun _ _ => rfl

theorem mem_takeValues : id ∈ (takeValues ids slots).2 ↔ id ∈ slots := by
  rw [Std.HashMap.mem_iff_isSome_getElem?, Std.HashMap.mem_iff_isSome_getElem?,
    getElem?_takeValues]
  split
  · rw [Option.isSome_map]
  · rfl

end SlotTable

namespace Box

variable {P D : Type}

/-- What is seen of an act: what the caller gets, and what the owner hears. -/
abbrev ActReport (P D : Type) := Except Refusal (Answer P) × Option (Completion D)

/-- The box after some acts. -/
def afterActs (b : Box P D) (acts : List (Act P D)) : Box P D :=
  acts.foldl (fun b a => (b.act a).box) b

/-- What is seen of each of some acts. -/
def seen : Box P D → List (Act P D) → List (ActReport P D) :=
  trace (fun b a => (b.act a).box) fun b a => ((b.act a).outcome, (b.act a).completion)

end Box

namespace SlottedBox

variable {σ P D : Type} [IndexSet σ ComputeId] {b : SlottedBox σ P D}

/-! ## Agreement -/

/-- The roster and the table tell of the same computes, each once. -/
structure Agreed (b : SlottedBox σ P D) : Prop where
  /-- no compute is repeated -/
  nodup : b.computes.members.Nodup
  /-- just the computes of the roster have slots -/
  slots : ∀ id, id ∈ b.slots ↔ id ∈ b.computes.members

/-- The box with one list of registrations in place of roster and table. -/
def toBox (b : SlottedBox σ P D) : Box P D :=
  { serial := b.serial
    label := b.label
    mode := b.mode
    phase := b.phase
    cycle := b.cycle
    remaining := b.remaining
    retrievals := b.retrievals
    registrations := b.slots.rows b.computes.members
    payload := b.payload
    nextToken := b.nextToken }

/-- The reply with the box that has one list. -/
def Reply.toBox {α : Type} (r : Reply σ P D α) : PatchDynamics.Reply P D α :=
  ⟨r.outcome, r.completion, r.box.toBox⟩

/-- A call is answered as on the box with one list, and roster and table agree afterwards. -/
structure Mirrors {α : Type} (r : Reply σ P D α) (r' : PatchDynamics.Reply P D α) : Prop where
  /-- the reply is the same -/
  same : r.toBox = r'
  /-- roster and table agree -/
  agreed : r.box.Agreed

theorem agreed_new (laws : IndexSet.Lawful σ) (serial : Nat) (label : BoxLabel) (mode : BoxMode) :
    (new serial label mode : SlottedBox σ P D).Agreed := by
  have hmembers : (Roster.empty : Roster σ).members = [] := Roster.members_empty laws
  refine ⟨hmembers ▸ List.nodup_nil, fun id => iff_of_false Std.HashMap.not_mem_empty ?_⟩
  exact fun hid => List.not_mem_nil (hmembers ▸ hid)

theorem toBox_new (laws : IndexSet.Lawful σ) (serial : Nat) (label : BoxLabel) (mode : BoxMode) :
    (new serial label mode : SlottedBox σ P D).toBox = Box.new serial label mode := by
  have hmembers : (Roster.empty : Roster σ).members = [] := Roster.members_empty laws
  have hrows : (new serial label mode : SlottedBox σ P D).slots.rows
      (new serial label mode : SlottedBox σ P D).computes.members = [] :=
    congrArg (SlotTable.rows ∅) hmembers
  rw [toBox, hrows]
  rfl

/-- A value is kept in the slot as in the registration. -/
theorem toBox_keep (b : SlottedBox σ P D) (handle : Handle) (cycle : Nat) (value : D) :
    { b with slots := b.slots.modify handle.task (.spent cycle value) }.toBox =
      b.toBox.keep handle cycle value := by
  have hrows : SlotTable.rows (b.slots.modify handle.task (.spent cycle value))
      b.computes.members = (b.toBox.keep handle cycle value).registrations :=
    SlotTable.rows_modify fun _ => rfl
  rw [toBox, hrows]
  rfl

/-- A registration, told by what the roster answers. -/
theorem register_eq (b : SlottedBox σ P D) (task : ComputeId) :
    b.register task =
      if (b.computes.insert task).1 then
        { outcome := .ok ⟨b.serial, task, b.nextToken⟩
          completion := none
          box := { b with
            computes := (b.computes.insert task).2
            slots := b.slots.insert task ⟨b.nextToken, 0, none⟩
            nextToken := b.nextToken + 1 } }
      else
        { outcome := .error (.alreadyRegistered b.label task)
          completion := none
          box := { b with computes := (b.computes.insert task).2 } } := rfl

namespace Agreed

/-- The computes of the one list are those of the roster. -/
theorem tasks_toBox (h : b.Agreed) : b.toBox.tasks = b.computes.members :=
  SlotTable.map_task_rows fun id => (h.slots id).mpr

/-- As many deposits are awaited. -/
theorem expected_toBox (laws : IndexSet.Lawful σ) (h : b.Agreed) :
    b.toBox.expected = b.expected := by
  have hlength := congrArg List.length h.tasks_toBox
  rw [Box.tasks, List.length_map] at hlength
  exact hlength.trans (laws.size_eq b.computes.ids).symm

/-- A handle stands for a registration as for a slot. -/
theorem live_toBox (h : b.Agreed) (handle : Handle) :
    b.toBox.live? handle = (b.slot? handle).map (·.row handle.task) := by
  rw [Box.live?, slot?]
  by_cases hbox : handle.box = b.serial
  · rw [if_pos (show handle.box = b.toBox.serial from hbox), if_pos hbox]
    refine (SlotTable.find?_rows ..).trans ?_
    split
    · rfl
    · next htask =>
      have hnone : b.slots[handle.task]? = none :=
        Std.HashMap.getElem?_eq_none (mt (h.slots _).mp htask)
      rw [hnone]
      rfl
  · rw [if_neg (show ¬ handle.box = b.toBox.serial from hbox), if_neg hbox]
    rfl

theorem refuse {α : Type} (h : b.Agreed) (r : Refusal) :
    Mirrors (b.refuse r : Reply σ P D α) (b.toBox.refuse r) := ⟨rfl, h⟩

/-! ## Calls -/

/-- **A registration** enters the compute at the end of the roster and in the table, or neither. -/
theorem register (laws : IndexSet.Lawful σ) (h : b.Agreed) (task : ComputeId) :
    Mirrors (b.register task) (b.toBox.register task) := by
  have htasks := h.tasks_toBox
  rw [register_eq]
  by_cases htask : task ∈ b.computes.members
  · -- the roster answers that the compute is there, and lists the same
    obtain ⟨hanswer, hmembers⟩ := Roster.insert_of_mem laws htask
    rw [Box.register_of_mem (htasks ▸ htask), if_neg (Bool.eq_false_iff.mp hanswer)]
    refine ⟨?_, ?_, fun id => ?_⟩
    · simp only [Reply.toBox, Box.refuse, toBox, hmembers]
    · exact hmembers.symm ▸ h.nodup
    · exact hmembers.symm ▸ h.slots id
  · obtain ⟨hanswer, hmembers⟩ := Roster.insert_of_not_mem laws htask
    rw [if_pos hanswer, Box.register, if_neg (htasks ▸ htask)]
    refine ⟨?_, ?_, fun id => ?_⟩
    · simp only [Reply.toBox, toBox, hmembers, SlotTable.rows_insert htask, BoxSlot.row]
    · refine hmembers.symm ▸ List.nodup_append.mpr ⟨h.nodup, List.pairwise_singleton _ _, ?_⟩
      exact fun x hx y hy hsame => htask (List.mem_singleton.mp hy ▸ hsame ▸ hx)
    · dsimp only
      rw [Std.HashMap.mem_insert, hmembers, List.mem_append, List.mem_singleton, h.slots, or_comm,
        beq_iff_eq, eq_comm (a := task)]

/-- **A handle given back** takes the compute out of the table and out of the roster. -/
theorem unregister (laws : IndexSet.Lawful σ) (h : b.Agreed) (handle : Handle) :
    Mirrors (b.unregister handle) (b.toBox.unregister handle) := by
  rw [SlottedBox.unregister, Box.unregister, h.live_toBox]
  cases b.slot? handle with
  | none => exact h.refuse _
  | some slot =>
    have hmembers : (b.computes.remove handle.task).2.members =
        b.computes.members.filter (· ≠ handle.task) := Roster.members_remove laws
    refine ⟨?_, ?_, fun id => ?_⟩
    · simp only [Reply.toBox, toBox, hmembers, SlotTable.rows_erase, Option.map_some]
    · exact hmembers ▸ h.nodup.filter _
    · dsimp only
      rw [Std.HashMap.mem_erase, hmembers, List.mem_filter, h.slots, and_comm, decide_eq_true_eq,
        beq_eq_false_iff_ne, ne_comm]

/-- **An opening** counts the roster. -/
theorem publish (laws : IndexSet.Lawful σ) (h : b.Agreed) (payload : P) :
    Mirrors (b.publish payload) (b.toBox.publish payload) := by
  have hexpected := h.expected_toBox laws
  by_cases hphase : b.phase = .idle
  · by_cases hwaits : b.mode = .accumulate ∧ b.expected = 0
    · -- nobody is registered, so no value is lost
      have hnone : b.slots.rows b.computes.members = [] :=
        List.length_eq_zero_iff.mp (hexpected.trans hwaits.2)
      rw [Box.publish_of_unattended (b := b.toBox) payload hphase hwaits.1
        (hexpected.trans hwaits.2), SlottedBox.publish, if_neg (by simp [hphase]), if_pos hwaits]
      refine ⟨?_, h.nodup, h.slots⟩
      simp [Reply.toBox, finish, toBox, Box.unattended, Box.start, Box.shut, Box.expected, hnone,
        hwaits.2]
    · rw [Box.publish_of_idle (b := b.toBox) payload hphase
        fun hm he => hwaits ⟨hm, hexpected.symm.trans he⟩, SlottedBox.publish,
        if_neg (by simp [hphase]), if_neg hwaits]
      refine ⟨?_, h.nodup, h.slots⟩
      simp only [Reply.toBox, toBox, Box.start, ← hexpected]
  · rw [Box.publish_of_busy (b := b.toBox) payload hphase, SlottedBox.publish, if_pos hphase]
    exact h.refuse _

theorem close (h : b.Agreed) : Mirrors b.close b.toBox.close := by
  by_cases hmode : b.mode = .accumulate
  · rw [SlottedBox.close, if_pos hmode, Box.close_of_accumulate (b := b.toBox) hmode]
    exact h.refuse _
  · have hread : b.toBox.mode = .read := by
      cases hm : b.mode with
      | read => exact hm
      | accumulate => exact absurd hm hmode
    by_cases hphase : b.phase = .opened
    · rw [SlottedBox.close, if_neg hmode, if_neg (by simp [hphase]),
        Box.close_of_opened hread hphase]
      exact ⟨rfl, h.nodup, h.slots⟩
    · rw [SlottedBox.close, if_neg hmode, if_pos hphase, Box.close_of_not_opened hread hphase]
      exact h.refuse _

theorem retrieve (h : b.Agreed) (handle : Handle) :
    Mirrors (b.retrieve handle) (b.toBox.retrieve handle) := by
  rw [SlottedBox.retrieve, Box.retrieve, h.live_toBox]
  cases b.slot? handle with
  | none => exact h.refuse _
  | some slot =>
    by_cases hphase : b.phase = .opened
    · simp only [Option.map_some, hphase, show b.toBox.phase = b.phase from rfl, ne_eq,
        not_true_eq_false, if_false]
      rw [show b.toBox.payload = b.payload from rfl]
      cases b.payload with
      | none => exact h.refuse _
      | some payload => exact ⟨rfl, h.nodup, h.slots⟩
    · simp only [Option.map_some, show b.toBox.phase = b.phase from rfl, ne_eq, hphase,
        not_false_eq_true, if_true]
      exact h.refuse _

/-! ## Deposits -/

theorem admission (h : b.Agreed) (handle : Handle) :
    b.toBox.admission handle = b.admission handle := by
  rw [Box.admission, SlottedBox.admission, h.live_toBox]
  cases b.slot? handle <;> rfl

/-- **A count** that comes to zero takes the values out of the table, down the roster. -/
theorem countDown (h : b.Agreed) (cycle : Nat) :
    Mirrors (b.countDown cycle) (b.toBox.countDown cycle) := by
  rw [SlottedBox.countDown, Box.countDown, show b.toBox.remaining = b.remaining from rfl]
  rcases b.remaining with _ | _ | left
  · exact h.refuse _
  · refine ⟨?_, h.nodup, fun id => SlotTable.mem_takeValues.trans (h.slots id)⟩
    simp [Reply.toBox, finish, toBox, Box.finish, Box.shut, Box.collected,
      SlotTable.takeValues_values _ h.nodup, SlotTable.rows_takeValues]
  · exact ⟨rfl, h.nodup, h.slots⟩

/-- **A deposit that is settled** is kept in the slot of its compute. -/
theorem settle (h : b.Agreed) (handle : Handle) (cycle : Nat) (value : D) :
    Mirrors (b.settle handle cycle value) (b.toBox.settle handle cycle value) := by
  rw [SlottedBox.settle, Box.settle, h.live_toBox]
  cases b.slot? handle with
  | none => exact h.refuse _
  | some slot =>
    by_cases hspent : slot.lastCycle = cycle
    · simp only [Option.map_some, BoxSlot.row, hspent, if_true]
      exact h.refuse _
    · simp only [Option.map_some, BoxSlot.row, hspent, if_false]
      have hagreed :
          { b with slots := b.slots.modify handle.task (.spent cycle value) }.Agreed :=
        ⟨h.nodup, fun id => Std.HashMap.mem_modify.trans (h.slots id)⟩
      rw [← toBox_keep]
      exact hagreed.countDown cycle

theorem deposit (h : b.Agreed) (check : ComputeId → P → D → Except Refusal Unit) (handle : Handle)
    (value : D) : Mirrors (b.deposit check handle value) (b.toBox.deposit check handle value) := by
  have hjudge : b.toBox.judge check handle.task value = b.judge check handle.task value := rfl
  rw [SlottedBox.deposit, Box.deposit, h.admission, hjudge]
  cases b.admission handle with
  | error r => exact h.refuse r
  | ok cycle =>
    cases b.judge check handle.task value with
    | error r => exact h.refuse r
    | ok => exact h.settle handle cycle value

end Agreed

/-! ## Runs -/

/-- The reply with what the caller gets translated. -/
def Reply.map {α β : Type} (f : α → β) (r : Reply σ P D α) : Reply σ P D β :=
  ⟨r.outcome.map f, r.completion, r.box⟩

theorem Mirrors.map {α β : Type} {r : Reply σ P D α} {r' : PatchDynamics.Reply P D α}
    (h : Mirrors r r') (f : α → β) : Mirrors (r.map f) (r'.map f) where
  same := congrArg (PatchDynamics.Reply.map f) h.same
  agreed := h.agreed

open Box (Call Act Answer)

/-- Makes a call. -/
def perform (b : SlottedBox σ P D) : Call P D → Reply σ P D (Answer P)
  | .register task => (b.register task).map .handle
  | .unregister h => (b.unregister h).map fun _ => .done
  | .publish payload => (b.publish payload).map .cycle
  | .close => b.close.map fun _ => .done
  | .retrieve h => (b.retrieve h).map .payload
  | .deposit check h value => (b.deposit check h value).map fun _ => .done

/-- Does what is done to a box at one moment. -/
def act (b : SlottedBox σ P D) : Act P D → Reply σ P D (Answer P)
  | .call c => b.perform c
  | .admission h => ⟨(b.admission h).map .cycle, none, b⟩
  | .settle h cycle value => (b.settle h cycle value).map fun _ => .done

/-- The box after some acts. -/
def after (b : SlottedBox σ P D) (acts : List (Act P D)) : SlottedBox σ P D :=
  acts.foldl (fun b a => (b.act a).box) b

/-- What is seen of each of some acts. -/
def seen : SlottedBox σ P D → List (Act P D) → List (Box.ActReport P D) :=
  trace (fun b a => (b.act a).box) fun b a => ((b.act a).outcome, (b.act a).completion)

/-- **Each act** goes as on the box with one list, and keeps roster and table in agreement. -/
theorem Agreed.act (laws : IndexSet.Lawful σ) (h : b.Agreed) (a : Act P D) :
    Mirrors (b.act a) (b.toBox.act a) := by
  cases a with
  | admission handle =>
    rw [Box.act, h.admission]
    exact ⟨rfl, h⟩
  | settle handle cycle value => exact (h.settle handle cycle value).map _
  | call c =>
    cases c with
    | register task => exact (h.register laws task).map _
    | unregister handle => exact (h.unregister laws handle).map _
    | publish payload => exact (h.publish laws payload).map _
    | close => exact h.close.map _
    | retrieve handle => exact (h.retrieve handle).map _
    | deposit check handle value => exact (h.deposit check handle value).map _

/-- A run goes as on the box with one list, and keeps roster and table in agreement. -/
theorem Agreed.run (laws : IndexSet.Lawful σ) (h : b.Agreed) (acts : List (Act P D)) :
    b.seen acts = b.toBox.seen acts ∧ (b.after acts).toBox = b.toBox.afterActs acts ∧
      (b.after acts).Agreed := by
  induction acts generalizing b with
  | nil => exact ⟨rfl, rfl, h⟩
  | cons a acts ih =>
    obtain ⟨hsame, hagreed⟩ := h.act laws a
    obtain ⟨hseen, hends, hafter⟩ := ih hagreed
    have hbox : (b.act a).box.toBox = (b.toBox.act a).box :=
      congrArg PatchDynamics.Reply.box hsame
    rw [hbox] at hseen hends
    have hsight : ((b.act a).outcome, (b.act a).completion) =
        ((b.toBox.act a).outcome, (b.toBox.act a).completion) := by
      rw [← hsame]
      rfl
    have hall : ((b.act a).outcome, (b.act a).completion) :: (b.act a).box.seen acts =
        ((b.toBox.act a).outcome, (b.toBox.act a).completion) ::
          (b.toBox.act a).box.seen acts := by rw [hsight, hseen]
    exact ⟨hall, hends, hafter⟩

/-- **Roster and table agree, and look like one list.** Take a new box with a roster on any set that
does what is relied on, and any acts on it: calls of its owner and of its consumers, deposits in two
halves, with any handles.

* The roster repeats no compute, and the table has slots for just the computes of the roster.
* Every act has the outcome and the completion that it has on the box with one list of
  registrations.
* Afterwards that list is the roster, each compute with what the table keeps of it. -/
theorem slots_agree (laws : IndexSet.Lawful σ) (serial : Nat) (label : BoxLabel) (mode : BoxMode)
    (acts : List (Act P D)) :
    let slotted : SlottedBox σ P D := new serial label mode
    let box : Box P D := Box.new serial label mode
    (slotted.after acts).Agreed ∧
    slotted.seen acts = box.seen acts ∧
    (slotted.after acts).toBox = box.afterActs acts := by
  intro slotted box
  obtain ⟨hseen, hends, hagreed⟩ := (agreed_new laws serial label mode).run laws acts
  rw [toBox_new laws serial label mode] at hseen hends
  exact ⟨hagreed, hseen, hends⟩

end SlottedBox

end PatchDynamics
