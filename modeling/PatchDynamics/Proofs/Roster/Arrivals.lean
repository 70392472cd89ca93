import Mathlib.Data.List.Induction
import Mathlib.Data.List.Perm.Subperm
import PatchDynamics.Proofs.Trace
import PatchDynamics.Roster

/-!
# Arrivals

A roster keeps its members in some order and nothing of the calls that made it. The order is that in
which deposited forces are summed, and it depends on all of these calls: who came, who left, who
came back, and who asked in vain. This file tells it in terms of the calls and their answers, for
rosters that rest on any set that does what is relied on:

* `Call`, `Event`, `history` — the calls on a roster, and what is seen of each call of a run;
* `Present`, `Call.Changes` — the members and the answers, told by the calls alone;
* `EnteredAt`, `Arrived` — when a member was inserted, and the list in the order of these times;
* `arrived_after` — the members of a roster are such a list, after any run;
* `sets_agree` — so it does not matter which set a roster rests on.

The laws of such a set tell of single operations. That no run of them lists anybody twice, and the
order that it leads to, is what is proved here. The main statement is `arrivals_exact`.
-/

namespace PatchDynamics

namespace Roster

/-! ## Calls and events -/

/-- One call on a roster. -/
inductive Call where
  /-- a compute comes -/
  | insert (id : ComputeId)
  /-- a compute leaves -/
  | remove (id : ComputeId)
  deriving DecidableEq

/-- The compute that a call names. -/
def Call.id : Call → ComputeId
  | .insert id => id
  | .remove id => id

section

variable {σ : Type} [IndexSet σ ComputeId]

/-- Makes a call. -/
def perform (r : Roster σ) : Call → Bool × Roster σ
  | .insert id => r.insert id
  | .remove id => r.remove id

/-- What is seen of one call from outside. -/
structure Event where
  /-- the call -/
  call : Call
  /-- whether it changed anything -/
  answer : Bool
  deriving DecidableEq

/-- What is seen of a call on this roster. -/
def event (r : Roster σ) (c : Call) : Event := ⟨c, (r.perform c).1⟩

/-- The roster after some calls. -/
def after (r : Roster σ) (calls : List Call) : Roster σ :=
  calls.foldl (fun r c => (r.perform c).2) r

/-- What is seen of each of some calls, in order. -/
def history : Roster σ → List Call → List Event := trace (fun r c => (r.perform c).2) event

theorem after_concat (r : Roster σ) (calls : List Call) (c : Call) :
    r.after (calls ++ [c]) = ((r.after calls).perform c).2 :=
  List.foldl_append

theorem history_concat (r : Roster σ) (calls : List Call) (c : Call) :
    r.history (calls ++ [c]) = r.history calls ++ [(r.after calls).event c] := trace_append ..

end

/-! ## Who is there -/

/-- The compute came and has not left since, according to these calls. -/
def Present (calls : List Call) (id : ComputeId) : Prop :=
  Since (· = .insert id) (· ≠ .remove id) calls

/-- A call changes the roster, according to the calls before it: whoever comes was not there, and
whoever leaves was. -/
def Call.Changes : Call → List Call → Prop
  | .insert id, before => ¬ Present before id
  | .remove id, before => Present before id

section

variable {σ : Type} [IndexSet σ ComputeId] (laws : IndexSet.Lawful σ)

include laws

/-- **The members of a roster** are those who came and have not left. -/
theorem mem_after {calls : List Call} {id : ComputeId} :
    id ∈ ((empty : Roster σ).after calls).members ↔ Present calls id := by
  induction calls using List.reverseRecOn with
  | nil =>
    refine iff_of_false ?_ not_since_nil
    rw [after, List.foldl_nil, members_empty laws]
    exact List.not_mem_nil
  | append_singleton calls c ih =>
    rw [after_concat, Present, since_concat, ← Present, ← ih]
    cases c with
    | insert x =>
      rw [perform, mem_insert laws, Call.insert.injEq, or_comm, eq_comm]
      exact or_congr_right (and_iff_left nofun).symm
    | remove x =>
      rw [perform, mem_remove laws, ne_eq, ne_eq, Call.remove.injEq, eq_comm]
      exact (or_iff_right nofun).symm

/-- **A call is answered** as the calls before it ask for. -/
theorem answer_event {calls : List Call} {c : Call} :
    (((empty : Roster σ).after calls).event c).answer = true ↔ c.Changes calls := by
  cases c with
  | insert id => exact (answer_insert laws).trans (not_congr (mem_after laws))
  | remove id => exact (answer_remove laws).trans (mem_after laws)

/-- What is seen at a time is the call, with the answer that the calls before it ask for. -/
theorem getElem?_history {calls : List Call} {time : Nat} {e : Event} :
    ((empty : Roster σ).history calls)[time]? = some e ↔
      calls[time]? = some e.call ∧ (e.answer = true ↔ e.call.Changes (calls.take time)) := by
  obtain ⟨call, answer⟩ := e
  have hentry : ((empty : Roster σ).history calls)[time]? =
      calls[time]?.map (event (empty.after (calls.take time))) := getElem?_trace ..
  rw [hentry, Option.map_eq_some_iff]
  constructor
  · rintro ⟨c, hc, heq⟩
    cases heq
    exact ⟨hc, answer_event laws⟩
  · rintro ⟨hc, hanswer⟩
    have hsame := Bool.eq_iff_iff.mpr ((answer_event laws).trans hanswer.symm)
    exact ⟨call, hc, congrArg (Event.mk call) hsame⟩

end

/-! ## When they came -/

variable {events : List Event} {e : Event} {ids : List ComputeId} {id : ComputeId} {time : Nat}

/-- The event changes nothing about the compute: it names another one, or was in vain. -/
def Event.Spares (id : ComputeId) (e : Event) : Prop := e.call.id = id → e.answer = false

/-- Of all events that changed something about the compute the last is the one at this time, and it
inserted the compute. -/
def EnteredAt (events : List Event) (id : ComputeId) (time : Nat) : Prop :=
  Since (· = (⟨.insert id, true⟩, time)) (·.1.Spares id) events.zipIdx

/-- The computes whose last change was that they came, each once, in the order of coming. -/
structure Arrived (events : List Event) (ids : List ComputeId) : Prop where
  /-- nobody is listed twice -/
  nodup : ids.Nodup
  /-- those are listed who came last time that something about them changed -/
  members : ∀ id, id ∈ ids ↔ ∃ time, EnteredAt events id time
  /-- who came earlier is listed earlier -/
  ordered : ids.Pairwise fun x y => ∀ s t, EnteredAt events x s → EnteredAt events y t → s < t

/-- An event that changes something spares the computes that it does not name. -/
theorem Event.spares_true {c : Call} : (⟨c, true⟩ : Event).Spares id ↔ c.id ≠ id :=
  imp_congr_right fun _ => iff_false_intro nofun

theorem EnteredAt.lt_length (h : EnteredAt events id time) : time < events.length := by
  obtain ⟨early, e, late, hsplit, rfl, -⟩ := h
  have hmem : (⟨.insert id, true⟩, time) ∈ events.zipIdx :=
    hsplit ▸ List.mem_append_right early List.mem_cons_self
  exact List.snd_lt_of_mem_zipIdx hmem

/-- One more event inserts the compute itself, or lets it stand where it was. -/
theorem enteredAt_concat :
    EnteredAt (events ++ [e]) id time ↔
      (e = ⟨.insert id, true⟩ ∧ events.length = time) ∨ EnteredAt events id time ∧ e.Spares id := by
  rw [EnteredAt, List.zipIdx_append, List.zipIdx_singleton, since_concat, Prod.mk.injEq,
    Nat.zero_add, ← EnteredAt]

theorem enteredAt_vain (he : e.answer = false) :
    EnteredAt (events ++ [e]) id time ↔ EnteredAt events id time := by
  have hspares : e.Spares id := fun _ => he
  rw [enteredAt_concat, and_iff_left hspares, or_iff_right]
  rintro ⟨rfl, -⟩
  cases he

theorem enteredAt_insertion {x : ComputeId} :
    EnteredAt (events ++ [⟨.insert x, true⟩]) id time ↔
      (x = id ∧ events.length = time) ∨ EnteredAt events id time ∧ x ≠ id := by
  rw [enteredAt_concat, Event.spares_true, Event.mk.injEq, Call.insert.injEq, and_iff_left rfl,
    Call.id]

theorem enteredAt_removal {x : ComputeId} :
    EnteredAt (events ++ [⟨.remove x, true⟩]) id time ↔ EnteredAt events id time ∧ x ≠ id := by
  rw [enteredAt_concat, Event.spares_true, or_iff_right, Call.id]
  rintro ⟨hinsert, -⟩
  cases hinsert

/-! ## The order of arrival -/

namespace Arrived

theorem nil : Arrived [] [] where
  nodup := .nil
  members _ := iff_of_false List.not_mem_nil fun ⟨_, h⟩ => not_since_nil h
  ordered := .nil

/-- An event in vain leaves the list. -/
theorem vain (h : Arrived events ids) (he : e.answer = false) : Arrived (events ++ [e]) ids := by
  refine ⟨h.nodup, fun id => ?_, ?_⟩
  · simp only [enteredAt_vain he]
    exact h.members id
  · simp only [enteredAt_vain he]
    exact h.ordered

/-- Who comes is listed last. -/
theorem enter (h : Arrived events ids) (hid : id ∉ ids) :
    Arrived (events ++ [⟨.insert id, true⟩]) (ids ++ [id]) := by
  have hother : ∀ x ∈ ids, id ≠ x := fun x hx hsame => hid (hsame ▸ hx)
  -- the others came when they came, and before the end
  have hold : ∀ x ∈ ids, ∀ time, EnteredAt (events ++ [⟨.insert id, true⟩]) x time →
      EnteredAt events x time := by
    intro x hx time ht
    exact ((enteredAt_insertion.mp ht).resolve_left fun hlast => hother x hx hlast.1).1
  have hlast : ∀ time, EnteredAt (events ++ [⟨.insert id, true⟩]) id time →
      events.length = time := by
    intro time ht
    exact ((enteredAt_insertion.mp ht).resolve_right fun hold => hold.2 rfl).2
  refine ⟨?_, fun x => ?_, ?_⟩
  · exact List.nodup_append.mpr ⟨h.nodup, List.pairwise_singleton _ id, fun x hx y hy hsame =>
      hid (List.mem_singleton.mp hy ▸ hsame ▸ hx)⟩
  · rw [List.mem_append, List.mem_singleton]
    constructor
    · rintro (hx | rfl)
      · obtain ⟨time, ht⟩ := (h.members x).mp hx
        exact ⟨time, enteredAt_insertion.mpr (.inr ⟨ht, hother x hx⟩)⟩
      · exact ⟨_, enteredAt_insertion.mpr (.inl ⟨rfl, rfl⟩)⟩
    · rintro ⟨time, ht⟩
      rcases enteredAt_insertion.mp ht with ⟨rfl, -⟩ | ⟨ht, -⟩
      · exact .inr rfl
      · exact .inl ((h.members x).mpr ⟨time, ht⟩)
  · rw [List.pairwise_append]
    refine ⟨?_, List.pairwise_singleton _ _, fun x hx y hy s t hs ht => ?_⟩
    · refine h.ordered.imp_of_mem fun hx hy hlt s t hs ht => ?_
      exact hlt s t (hold _ hx s hs) (hold _ hy t ht)
    · obtain rfl := List.mem_singleton.mp hy
      rw [← hlast t ht]
      exact (hold x hx s hs).lt_length

/-- Who leaves is listed no more, and the rest as before. -/
theorem leave (h : Arrived events ids) (id : ComputeId) :
    Arrived (events ++ [⟨.remove id, true⟩]) (ids.filter (· ≠ id)) where
  nodup := h.nodup.filter _
  members x := by
    simp only [enteredAt_removal, exists_and_right, ← h.members x, List.mem_filter,
      decide_eq_true_eq, ne_comm (a := x)]
  ordered := by
    refine (h.ordered.imp fun hlt s t hs ht => ?_).filter _
    exact hlt s t (enteredAt_removal.mp hs).1 (enteredAt_removal.mp ht).1

/-- **One call keeps the order of arrival.** -/
theorem perform {σ : Type} [IndexSet σ ComputeId] (laws : IndexSet.Lawful σ) {r : Roster σ}
    (h : Arrived events r.members) (c : Call) :
    Arrived (events ++ [r.event c]) (r.perform c).2.members := by
  cases c with
  | insert id =>
    rw [event, Roster.perform]
    by_cases hid : id ∈ r.members
    · obtain ⟨hanswer, hmembers⟩ := insert_of_mem laws hid
      rw [hmembers]
      exact h.vain hanswer
    · obtain ⟨hanswer, hmembers⟩ := insert_of_not_mem laws hid
      rw [hmembers, hanswer]
      exact h.enter hid
  | remove id =>
    rw [event, Roster.perform]
    by_cases hid : id ∈ r.members
    · rw [members_remove laws, (answer_remove laws).mpr hid]
      exact h.leave id
    · rw [members_remove_of_not_mem laws hid]
      exact h.vain (Bool.eq_false_iff.mpr (mt (answer_remove laws).mp hid))

/-- There is only one list in the order of arrival. -/
theorem unique {others : List ComputeId} (h : Arrived events ids)
    (hothers : Arrived events others) : ids = others := by
  have hperm : ids.Perm others := (List.perm_ext_iff_of_nodup h.nodup hothers.nodup).mpr fun x =>
    (h.members x).trans (hothers.members x).symm
  refine hperm.eq_of_pairwise (fun x y hx hy hxy hyx => ?_) h.ordered hothers.ordered
  -- neither can have come before the other
  obtain ⟨s, hs⟩ := (h.members x).mp hx
  obtain ⟨t, ht⟩ := (hothers.members y).mp hy
  exact absurd (hxy s t hs ht) (Nat.lt_asymm (hyx t s ht hs))

end Arrived

section

variable {σ : Type} [IndexSet σ ComputeId]

/-- **The members of a roster are listed in the order of arrival**, after any run of calls. -/
theorem arrived_after (laws : IndexSet.Lawful σ) (calls : List Call) :
    Arrived ((empty : Roster σ).history calls) ((empty : Roster σ).after calls).members := by
  induction calls using List.reverseRecOn with
  | nil =>
    rw [after, List.foldl_nil, members_empty laws]
    exact .nil
  | append_singleton calls c ih =>
    rw [after_concat, history_concat]
    exact ih.perform laws c

/-- **It cannot be told on which set a roster rests**: the same calls are answered alike and leave
the same list on any two sets that do what is relied on, such as lists. -/
theorem sets_agree {τ : Type} [IndexSet τ ComputeId] (laws : IndexSet.Lawful σ)
    (laws' : IndexSet.Lawful τ) (calls : List Call) :
    (empty : Roster σ).history calls = (empty : Roster τ).history calls ∧
      ((empty : Roster σ).after calls).members = ((empty : Roster τ).after calls).members := by
  have hhistory : (empty : Roster σ).history calls = (empty : Roster τ).history calls :=
    List.ext_getElem? fun time => Option.ext fun e =>
      (getElem?_history laws).trans (getElem?_history laws').symm
  exact ⟨hhistory, (arrived_after laws calls).unique (hhistory ▸ arrived_after laws' calls)⟩

/-! ## Equal rosters -/

/-- **Rosters without repetitions are equal** if they have the same members. -/
theorem sameMembers_iff (laws : IndexSet.Lawful σ) {r s : Roster σ} (hr : r.members.Nodup)
    (hs : s.members.Nodup) : r.sameMembers s = true ↔ ∀ id, id ∈ r.members ↔ id ∈ s.members := by
  have hcompare : r.sameMembers s =
      (r.members.length = s.members.length && r.members.all s.contains) := by
    have hequal := laws.equal_eq r.ids s.ids
    rw [laws.size_eq, laws.size_eq] at hequal
    exact hequal
  rw [hcompare, Bool.and_eq_true, decide_eq_true_eq, List.all_eq_true]
  constructor
  · rintro ⟨hsize, hall⟩
    -- all members of the one are members of the other, which has no more
    have hsubset : r.members ⊆ s.members := fun id hid =>
      (contains_eq_true_iff laws).mp (hall id hid)
    have hperm := (List.subperm_of_subset hr hsubset).perm_of_length_le (Nat.le_of_eq hsize.symm)
    exact fun id => hperm.mem_iff
  · intro hmembers
    have hperm := (List.perm_ext_iff_of_nodup hr hs).mpr hmembers
    exact ⟨hperm.length_eq, fun id hid => (contains_eq_true_iff laws).mpr ((hmembers id).mp hid)⟩

/-! ## Exactness -/

/-- **A roster is a set in the order of arrival.** Take a new roster, on any set that does what is
relied on, and any run of insertions and removals. Each call is answered as the calls before it ask
for: an insertion tells whether the compute was absent, a removal whether it was present. Afterwards
the roster lists, each once, those whose last change was that they were inserted, in the order of
these insertions, and it is the only such list. So an insertion in vain leaves the list, and any
other puts the compute last; a removal keeps the order of the rest; and who comes back comes last.
Membership, number and emptiness agree with the list. Two rosters count as equal exactly if they
have the same members, however listed. -/
theorem arrivals_exact (laws : IndexSet.Lawful σ) (calls : List Call) :
    let r := (empty : Roster σ).after calls
    let events := (empty : Roster σ).history calls
    (∀ time (e : Event), events[time]? = some e ↔
      calls[time]? = some e.call ∧ (e.answer = true ↔ e.call.Changes (calls.take time))) ∧
    (∀ ids, Arrived events ids ↔ r.members = ids) ∧
    (∀ id, (r.insert id).2.members = if id ∈ r.members then r.members else r.members ++ [id]) ∧
    (∀ id, (r.remove id).2.members = r.members.erase id ∧
      ((r.remove id).2.insert id).2.members = r.members.erase id ++ [id]) ∧
    (∀ id, (r.contains id = true ↔ id ∈ r.members) ∧ (id ∈ r.members ↔ Present calls id)) ∧
    r.size = r.members.length ∧ (r.isEmpty = true ↔ r.members = []) ∧
    ∀ others, r.sameMembers (empty.after others) = true ↔
      ∀ id, id ∈ r.members ↔ id ∈ ((empty : Roster σ).after others).members := by
  intro r events
  have hnodup : r.members.Nodup := (arrived_after laws calls).nodup
  have hremove : ∀ id, (r.remove id).2.members = r.members.erase id := fun id => by
    rw [members_remove laws, hnodup.erase_eq_filter]
    exact List.filter_congr fun x _ => decide_not
  have hsize : r.size = r.members.length := laws.size_eq r.ids
  have hempty : r.isEmpty = true ↔ r.members = [] := by
    rw [isEmpty, laws.isEmpty_eq, decide_eq_true_eq, ← size, hsize, List.length_eq_zero_iff]
  refine ⟨fun time e => getElem?_history laws, ?_, ?_, ?_,
    fun id => ⟨contains_eq_true_iff laws, mem_after laws⟩, hsize, hempty,
    fun others => sameMembers_iff laws hnodup (arrived_after laws others).nodup⟩
  · intro ids
    exact ⟨fun h => (arrived_after laws calls).unique h, fun h => h ▸ arrived_after laws calls⟩
  · intro id
    split
    · next hid => exact (insert_of_mem laws hid).2
    · next hid => exact (insert_of_not_mem laws hid).2
  · intro id
    have habsent : id ∉ (r.remove id).2.members := fun hid => ((mem_remove laws).mp hid).2 rfl
    refine ⟨hremove id, ?_⟩
    rw [(insert_of_not_mem laws habsent).2, hremove id]

end

/-- On a list: one that comes twice keeps its place, one that comes back comes last, and who leaves
without being there is answered so. The roster equals one that was filled in another order. -/
theorem arrivals_on_list :
    let calls : List Call := [
      .insert ⟨5⟩, .insert ⟨1⟩, .insert ⟨9⟩, .insert ⟨1⟩, .remove ⟨5⟩, .insert ⟨5⟩, .remove ⟨3⟩]
    let r := (empty : Roster (List ComputeId)).after calls
    let events := (empty : Roster (List ComputeId)).history calls
    events.map Event.answer = [true, true, true, false, true, true, false] ∧
    Arrived events [⟨1⟩, ⟨9⟩, ⟨5⟩] ∧
    r.sameMembers (empty.after [.insert ⟨9⟩, .insert ⟨5⟩, .insert ⟨1⟩]) = true := by
  intro calls r events
  obtain ⟨-, harrived, -, -, -, -, -, hsame⟩ := arrivals_exact IndexSet.lawful_list calls
  refine ⟨by decide, (harrived _).mpr (by decide), (hsame _).mpr fun id => ?_⟩
  have hperm : r.members.Perm
      ((empty : Roster (List ComputeId)).after
        [.insert ⟨9⟩, .insert ⟨5⟩, .insert ⟨1⟩]).members := by decide
  exact hperm.mem_iff

end Roster

end PatchDynamics
