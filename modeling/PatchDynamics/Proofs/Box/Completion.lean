import Mathlib.Data.List.Nodup
import Mathlib.Data.List.Perm.Subperm
import PatchDynamics.Proofs.Box.Calls

/-!
# Completions are exact

A cycle of an accumulate box is opened with a count of the computes registered then, and every
accepted deposit takes one off. Registrations may come and go meanwhile: they move the list of
computes and what it holds, and the count stays. The main statement, `completion_exact`, is read off
the history of a run alone:

* the opening completes the cycle if nobody was registered, and otherwise the deposit does that is
  the last one awaited;
* what the completion lists are the accepted deposits whose handles are still out, in the order of
  registration;
* with registrations left alone, that is one value for each registered compute;
* no deposit ever finds the count used up.

The invariant is `InCycle`, which ties the count, the phase and the values held to the deposits that
were accepted since the opening.
-/

namespace PatchDynamics

namespace Box

variable {P D : Type}

/-! ## Reading a history -/

namespace Event

/-- Whether the event starts a cycle. -/
def opens (e : Event P D) : Bool :=
  match e.call, e.outcome with
  | .publish _, .ok _ => true
  | _, _ => false

/-- The handle and the value, if the event is a deposit that was accepted. -/
def deposit? (e : Event P D) : Option (Handle × D) :=
  match e.call, e.outcome with
  | .deposit _ h value, .ok _ => some (h, value)
  | _, _ => none

/-- The handles that are out after the event, given those before it, first issued first. -/
def handlesAfter (out : List Handle) (e : Event P D) : List Handle :=
  match e.call, e.outcome with
  | .register _, .ok (.handle h) => out ++ [h]
  | .unregister h, .ok _ => out.filter (· ≠ h)
  | _, _ => out

/-- Whether the event changes the registrations. -/
def registers (e : Event P D) : Bool :=
  match e.call, e.outcome with
  | .register _, .ok _ | .unregister _, .ok _ => true
  | _, _ => false

end Event

/-- The handles that are out after some events, first issued first. -/
def handlesOut (events : List (Event P D)) : List Handle := events.foldl Event.handlesAfter []

/-- The deposits accepted among some events, in the order of acceptance. -/
def accepted (events : List (Event P D)) : List (Handle × D) := events.filterMap Event.deposit?

/-- What a completion lists: of each handle in order the value deposited through it, if there is
one. -/
def listing (handles : List Handle) (accepted : List (Handle × D)) : List (ComputeId × D) :=
  handles.filterMap fun h => (accepted.lookup h).map (h.task, ·)

/-- How the cycle completes that `opening` starts after the events `before`, as far as the events
`during` go that follow. -/
structure CompletesExactly (label : BoxLabel) (before : List (Event P D)) (opening : Event P D)
    (during : List (Event P D)) : Prop where
  /-- the opening completes the cycle at once exactly if no compute is registered -/
  at_opening : opening.completion.map Completion.deposits =
    if (handlesOut before).length = 0 then some [] else none
  /-- after that, exactly the deposit does that is accepted as the last one awaited -/
  at_last : ∀ {early e late}, during = early ++ e :: late →
    (e.completion.isSome ↔
      e.deposit?.isSome ∧ (accepted early).length + 1 = (handlesOut before).length)
  /-- more deposits than awaited are not accepted -/
  not_beyond : (accepted during).length ≤ (handlesOut before).length
  /-- no handle deposits twice -/
  distinct : ((accepted during).map Prod.fst).Nodup
  /-- the completion lists the accepted deposits whose handles are still out -/
  lists : ∀ {early e late c}, during = early ++ e :: late → e.completion = some c →
    c.label = label ∧
      c.deposits = listing (handlesOut (before ++ opening :: early)) (accepted (early ++ [e]))
  /-- with registrations left alone since the opening, every registered compute is listed -/
  lists_all : ∀ {early e late c}, during = early ++ e :: late → e.completion = some c →
    (∀ e ∈ early, ¬ e.registers) →
    c.deposits.map Prod.fst = (handlesOut before).map Handle.task

/-! ## Openings -/

/-- An idle box starts a cycle when it is opened. -/
theorem opens_of_idle {b : Box P D} (hphase : b.phase = .idle) (payload : P) :
    (b.event (.publish payload)).opens := by
  by_cases hwaits : b.mode = .accumulate ∧ b.expected = 0
  · rw [event, perform, publish_of_unattended payload hphase hwaits.1 hwaits.2]
    rfl
  · rw [event, perform, publish_of_idle payload hphase fun hm he => hwaits ⟨hm, he⟩]
    rfl

/-- A box that starts a cycle was idle. -/
theorem idle_of_opens {b : Box P D} {c : Call P D} (hopens : (b.event c).opens) :
    b.phase = .idle ∧ ∃ payload, c = .publish payload := by
  cases c with
  | publish payload =>
    refine ⟨?_, payload, rfl⟩
    by_contra hphase
    rw [event, perform, publish_of_busy payload hphase] at hopens
    cases hopens
  | _ => cases hopens

/-! ## What is out, by the history and by the box -/

theorem map_task_handles (b : Box P D) : b.handles.map Handle.task = b.tasks := by
  rw [tasks, handles, List.map_map]
  rfl

/-- A box waits for one deposit for each handle that is out. -/
theorem length_handles (b : Box P D) : b.handles.length = b.expected := List.length_map _

/-- No handle is out twice. -/
theorem nodup_handles {b : Box P D} (nodup : b.tasks.Nodup) : b.handles.Nodup :=
  List.Nodup.of_map Handle.task (b.map_task_handles ▸ nodup)

/-- A handle that is out is live, whatever the box holds. -/
theorem live_of_mem_handles {b : Box P D} (nodup : b.tasks.Nodup) {h : Handle}
    (hh : h ∈ b.handles) : ∃ r ∈ b.registrations, b.handle r = h ∧ b.live? h = some r := by
  obtain ⟨r, hr, rfl⟩ := List.mem_map.mp hh
  exact ⟨r, hr, rfl, live_handle nodup hr⟩

/-- A handle that is live is out. -/
theorem mem_handles_of_live {b : Box P D} {h : Handle} {r : Registration D}
    (live : b.live? h = some r) : h ∈ b.handles := by
  rw [← handle_of_live live]
  exact List.mem_map_of_mem (mem_of_live live)

/-- A call that leaves every registration its compute and token leaves the handles. -/
theorem handles_keep (b : Box P D) (h : Handle) (cycle : Nat) (value : D) :
    (b.keep h cycle value).handles = b.handles := by
  rw [handles, handles, keep, List.map_map]
  refine List.map_congr_left fun s _ => ?_
  simp only [Function.comp]
  split <;> rfl

theorem handles_emptied (b : Box P D) : b.emptied.handles = b.handles := by
  rw [handles, handles, emptied, shut, List.map_map]
  rfl

theorem handles_countDown (b : Box P D) (cycle : Nat) :
    (b.countDown cycle).box.handles = b.handles := by
  rcases Nat.lt_trichotomy b.remaining 1 with hleft | hleft | hleft
  · rw [countDown_of_none cycle (by omega)]
    rfl
  · rw [countDown_of_last cycle hleft]
    exact handles_emptied b
  · rw [countDown_of_more cycle hleft]
    rfl

/-- No two registrations have one compute, so the compute tells the handle. -/
theorem task_eq_iff {b : Box P D} (nodup : b.tasks.Nodup) {h : Handle} {r s : Registration D}
    (live : b.live? h = some r) (hs : s ∈ b.registrations) :
    s.task = h.task ↔ b.handle s = h := by
  refine ⟨fun htask => ?_, fun heq => congrArg Handle.task heq⟩
  have hinj := List.inj_on_of_nodup_map nodup
  rw [hinj hs (mem_of_live live) (htask.trans (task_of_live live).symm), handle_of_live live]

/-- A handle given back is the one that goes. -/
theorem handles_unregister {b : Box P D} (nodup : b.tasks.Nodup) {h : Handle} {r : Registration D}
    (live : b.live? h = some r) :
    (b.unregister h).box.handles = b.handles.filter (· ≠ h) := by
  rw [unregister, live, handles, handles, List.filter_map]
  refine congrArg (List.map b.handle) (List.filter_congr fun s hs => ?_)
  simpa using task_eq_iff nodup live hs

/-- **The handles that are out after a call** are those that the event tells of. -/
theorem handles_perform {b : Box P D} (nodup : b.tasks.Nodup) (c : Call P D) :
    (b.perform c).box.handles = (b.event c).handlesAfter b.handles := by
  cases c with
  | register task =>
    by_cases hmem : task ∈ b.tasks
    · rw [event, perform, register_of_mem hmem]
      rfl
    · rw [event, perform, register, if_neg hmem]
      exact List.map_append
  | unregister h =>
    rcases live : b.live? h with _ | r
    · rw [event, perform, unregister_of_unknown live]
      rfl
    · have hr := handles_unregister nodup live
      rw [event, perform, unregister, live]
      rw [unregister, live] at hr
      exact hr
  | publish payload =>
    change (b.publish payload).box.handles = b.handles
    by_cases hphase : b.phase = .idle
    · by_cases hwaits : b.mode = .accumulate ∧ b.expected = 0
      · rw [publish_of_unattended payload hphase hwaits.1 hwaits.2, handles, handles, unattended,
          shut, List.map_map]
        rfl
      · rw [publish_of_idle payload hphase fun hm he => hwaits ⟨hm, he⟩]
        rfl
    · rw [publish_of_busy payload hphase]
      rfl
  | close =>
    change b.close.box.handles = b.handles
    cases hmode : b.mode with
    | accumulate =>
      rw [close_of_accumulate hmode]
      rfl
    | read =>
      by_cases hphase : b.phase = .opened
      · rw [close_of_opened hmode hphase]
        rfl
      · rw [close_of_not_opened hmode hphase]
        rfl
  | retrieve h =>
    change (b.retrieve h).box.handles = b.handles
    rcases b.retrieve_cases h with ⟨_, hr, -⟩ | ⟨_, -, -, hr⟩ <;> rw [hr] <;> rfl
  | deposit check h value =>
    have hsame : (b.deposit check h value).box.handles = b.handles := by
      rcases b.deposit_cases check h value with ⟨r, hr, -⟩ | ⟨r, -, -, -, -, -, hr⟩
      · rw [hr]
        rfl
      · rw [hr, handles_countDown, handles_keep]
    rw [show (b.perform (.deposit check h value)).box = (b.deposit check h value).box from rfl,
      hsame]
    rfl

/-- The handles that are out after a run are those that its history tells of. -/
theorem handles_after {b : Box P D} (hb : b.Orderly) (calls : List (Call P D)) :
    (b.after calls).handles = (b.history calls).foldl Event.handlesAfter b.handles := by
  induction calls generalizing b with
  | nil => rfl
  | cons c calls ih =>
    rw [after_cons, ih (hb.perform c), history_cons, List.foldl_cons, handles_perform hb.nodup c]

/-- A new box has no handle out, so afterwards the history alone tells which are. -/
theorem handlesOut_history (serial : Nat) (label : BoxLabel) (mode : BoxMode)
    (calls : List (Call P D)) :
    handlesOut ((new serial label mode).history calls) =
      ((new serial label mode).after calls).handles :=
  (handles_after (orderly_new serial label mode) calls).symm

/-- A value that is kept is what the registration of its handle holds from then on. -/
theorem value_keep {b : Box P D} (nodup : b.tasks.Nodup) {h : Handle} {r : Registration D}
    (live : b.live? h = some r) (cycle : Nat) (value : D) {held : List (Handle × D)}
    (holds : ∀ r ∈ b.registrations, r.value = held.lookup (b.handle r)) {s : Registration D}
    (hs : s ∈ (b.keep h cycle value).registrations) :
    s.value = ((h, value) :: held).lookup (b.handle s) := by
  obtain ⟨t, ht, rfl⟩ := List.mem_map.mp hs
  rw [List.lookup_cons]
  by_cases htask : t.task = h.task
  · -- the compute of the handle is registered once, so this is the handle's own registration
    have hhandle : b.handle t = h := (task_eq_iff nodup live ht).mp htask
    rw [if_pos htask]
    change some value = match b.handle t == h with | true => some value | false => _
    rw [beq_iff_eq.mpr hhandle]
  · have hne : (b.handle t == h) = false :=
      beq_eq_false_iff_ne.mpr fun heq => htask (congrArg Handle.task heq)
    rw [if_neg htask, hne, holds t ht]

/-! ## The invariant of a cycle -/

/-- What holds of a box since a cycle was opened that awaited some deposits and has accepted some:
what is left of the count, and the values held while the cycle is under way. -/
structure InCycle (b : Box P D) (awaited : Nat) (accepted : List (Handle × D)) : Prop where
  /-- the box is in order -/
  orderly : b.Orderly
  /-- it closes by deposits -/
  mode : b.mode = .accumulate
  /-- every deposit accepted was taken off the count -/
  counted : accepted.length + b.remaining = awaited
  /-- no handle deposited twice -/
  distinct : (accepted.map Prod.fst).Nodup
  /-- handles to be issued have not deposited -/
  issued : ∀ h ∈ accepted.map Prod.fst, h.token < b.nextToken
  /-- while the cycle is under way, each registration holds what its handle deposited -/
  holds : b.phase = .opened → ∀ r ∈ b.registrations, r.value = accepted.lookup (b.handle r)

namespace InCycle

variable {b : Box P D} {awaited : Nat} {past : List (Handle × D)}

theorem not_mem_of_lookup {h : Handle} (hnone : past.lookup h = none) :
    h ∉ past.map Prod.fst := by
  intro hmem
  obtain ⟨p, hp, rfl⟩ := List.mem_map.mp hmem
  have hne := List.lookup_eq_none_iff.mp hnone p hp
  exact absurd rfl (bne_iff_ne.mp hne)

theorem lookup_of_not_mem {h : Handle} (hmem : h ∉ past.map Prod.fst) :
    past.lookup h = none := by
  refine List.lookup_eq_none_iff.mpr fun p hp => bne_iff_ne.mpr ?_
  rintro rfl
  exact hmem (List.mem_map_of_mem hp)

/-- An opening begins a cycle in which nothing was accepted yet. -/
theorem publish (hb : b.Orderly) (hmode : b.mode = .accumulate) (payload : P)
    (hphase : b.phase = .idle) : (b.publish payload).box.InCycle b.expected [] := by
  have horderly := hb.publish payload
  by_cases hnone : b.expected = 0
  · rw [publish_of_unattended payload hphase hmode hnone] at horderly ⊢
    exact ⟨horderly, hmode, Nat.zero_add _, List.nodup_nil, nofun, nofun⟩
  · rw [publish_of_idle payload hphase fun _ => hnone] at horderly ⊢
    refine ⟨horderly, hmode, Nat.zero_add _, List.nodup_nil, nofun, fun _ r hr => ?_⟩
    exact hb.value_of_not_opened (by simp [hphase]) hr

theorem register (hb : b.InCycle awaited past) (task : ComputeId) :
    (b.register task).box.InCycle awaited past := by
  have horderly := hb.orderly.register task
  unfold Box.register at horderly ⊢
  split
  · exact hb
  · next hnew =>
    rw [if_neg hnew] at horderly
    refine ⟨horderly, hb.mode, hb.counted, hb.distinct, ?_, ?_⟩
    · exact fun h hh => Nat.lt_succ_of_lt (hb.issued h hh)
    · intro hphase r hr
      rcases List.mem_append.mp hr with hr | hr
      · exact hb.holds hphase r hr
      · -- the token of the new handle is larger than that of any handle that deposited
        rw [List.mem_singleton.mp hr]
        refine (lookup_of_not_mem fun hmem => ?_).symm
        exact Nat.lt_irrefl _ (hb.issued _ hmem)

theorem unregister (hb : b.InCycle awaited past) (h : Handle) :
    (b.unregister h).box.InCycle awaited past := by
  have horderly := hb.orderly.unregister h
  unfold Box.unregister at horderly ⊢
  split
  · exact hb
  · next live =>
    rw [live] at horderly
    refine ⟨horderly, hb.mode, hb.counted, hb.distinct, hb.issued, fun hphase r hr => ?_⟩
    exact hb.holds hphase r (List.mem_of_mem_filter hr)

theorem retrieve (hb : b.InCycle awaited past) (h : Handle) :
    (b.retrieve h).box.InCycle awaited past := by
  have horderly := hb.orderly.retrieve h
  rcases b.retrieve_cases h with ⟨_, hr, -⟩ | ⟨_, -, -, hr⟩ <;> rw [hr] at horderly ⊢
  · exact hb
  · exact ⟨horderly, hb.mode, hb.counted, hb.distinct, hb.issued, hb.holds⟩

/-- A handle that is not spent in this cycle has not deposited in it. -/
theorem not_mem_of_fresh (hb : b.InCycle awaited past) {h : Handle} {r : Registration D}
    (live : b.live? h = some r) (hphase : b.phase = .opened) (hfresh : r.lastCycle ≠ b.cycle) :
    h ∉ past.map Prod.fst := by
  have hmem := mem_of_live live
  have hvalue : r.value = none := by
    rcases hv : r.value with _ | v
    · rfl
    · exact absurd (hb.orderly.holding r hmem (by simp [hv])).2.2 hfresh
  have hlookup := hb.holds hphase r hmem
  rw [hvalue, handle_of_live live] at hlookup
  exact not_mem_of_lookup hlookup.symm

/-- The registrations hold one value more once a deposit is kept. -/
theorem holds_keep (hb : b.InCycle awaited past) {h : Handle} {r : Registration D} (value : D)
    (live : b.live? h = some r) (hphase : b.phase = .opened) (hfresh : r.lastCycle ≠ b.cycle) :
    ∀ s ∈ (b.keep h b.cycle value).registrations,
      s.value = (past ++ [(h, value)]).lookup (b.handle s) := by
  intro s hs
  have hnew := lookup_of_not_mem (hb.not_mem_of_fresh live hphase hfresh)
  rw [value_keep hb.orderly.nodup live b.cycle value (hb.holds hphase) hs, List.lookup_append]
  by_cases hsame : b.handle s = h
  · simp [hsame, hnew]
  · simp [List.lookup_cons, beq_eq_false_iff_ne.mpr hsame]

/-- What a box collects that holds certain values. -/
theorem collected_eq {held : List (Handle × D)}
    (holds : ∀ r ∈ b.registrations, r.value = held.lookup (b.handle r)) :
    b.collected = listing b.handles held := by
  rw [collected, listing, handles, List.filterMap_map]
  refine List.filterMap_congr fun r hr => ?_
  rw [holds r hr]
  rfl

/-- **A deposit in a cycle** is refused, or accepted into the count; and it is the last one awaited
that closes the cycle, with all that is held listed. -/
theorem deposit (hb : b.InCycle awaited past) (check : ComputeId → P → D → Except Refusal Unit)
    (h : Handle) (value : D) :
    (∃ r, b.deposit check h value = b.refuse r ∧ ∀ label cycle, r = .cycleExhausted label cycle →
      ∃ payload, check h.task payload value = .error r) ∨
    ∃ b', b'.InCycle awaited (past ++ [(h, value)]) ∧ b'.handles = b.handles ∧
      past.length < awaited ∧ b.deposit check h value = ⟨.ok (),
        if past.length + 1 = awaited then
          some ⟨b.label, b.cycle, listing b.handles (past ++ [(h, value)]), b.retrievals⟩
        else none, b'⟩ := by
  rcases b.deposit_cases check h value with hr | ⟨r, live, hmode, hphase, hfresh, -, hr⟩
  · exact .inl hr
  right
  -- from here on the deposit is accepted: the handle is live and not spent in this cycle
  have horderly := hb.orderly.deposit check h value
  have hpos : 0 < b.remaining := (hb.orderly.awaiting hmode).mp hphase
  have hcounted := hb.counted
  have hnew := hb.not_mem_of_fresh live hphase hfresh
  have hholds := hb.holds_keep value live hphase hfresh
  have hlength : (past ++ [(h, value)]).length = past.length + 1 := by simp
  have hdistinct : ((past ++ [(h, value)]).map Prod.fst).Nodup := by
    rw [List.map_append]
    refine List.nodup_append.mpr ⟨hb.distinct, by simp, ?_⟩
    rintro a ha c hc rfl
    have hc : a = h := List.mem_singleton.mp hc
    exact hnew (hc ▸ ha)
  have hissued : ∀ g ∈ (past ++ [(h, value)]).map Prod.fst, g.token < b.nextToken := by
    intro g hg
    rw [List.map_append] at hg
    rcases List.mem_append.mp hg with hg | hg
    · exact hb.issued g hg
    · have hg : g = h := List.mem_singleton.mp hg
      rw [hg, ← handle_of_live live]
      exact hb.orderly.issued r (mem_of_live live)
  have hhandles := b.handles_keep h b.cycle value
  -- the count was at one exactly if this is the last deposit awaited
  by_cases hlast : b.remaining = 1
  · have hclosed := countDown_of_last (b := b.keep h b.cycle value) b.cycle hlast
    rw [hclosed] at hr
    rw [hr] at horderly ⊢
    refine ⟨_, ⟨horderly, hmode, ?_, hdistinct, hissued, nofun⟩, ?_, by omega, ?_⟩
    · change (past ++ [(h, value)]).length + 0 = awaited
      omega
    · rw [handles_emptied, hhandles]
    · rw [if_pos (by omega), collected_eq (b := b.keep h b.cycle value) hholds, hhandles]
      rfl
  · have hopen := countDown_of_more (b := b.keep h b.cycle value) b.cycle
      (show 1 < b.remaining by omega)
    rw [hopen] at hr
    rw [hr] at horderly ⊢
    refine ⟨_, ⟨horderly, hmode, ?_, hdistinct, hissued, fun _ => hholds⟩, hhandles, by omega, ?_⟩
    · change (past ++ [(h, value)]).length + (b.remaining - 1) = awaited
      omega
    · rw [if_neg (by omega)]

/-- An event without an accepted deposit leaves the account as it is. -/
theorem append_none (hb : b.InCycle awaited past) {e : Event P D} (hd : e.deposit? = none) :
    b.InCycle awaited (past ++ e.deposit?.toList) := by
  rw [hd, Option.toList_none, List.append_nil]
  exact hb

/-- **One call in a cycle** that does not start another one. It accepts no deposit and completes
nothing, or it accepts one and completes the cycle if that was the last one awaited. -/
theorem perform (hb : b.InCycle awaited past) {c : Call P D} (hopens : ¬ (b.event c).opens) :
    (b.perform c).box.InCycle awaited (past ++ (b.event c).deposit?.toList) ∧
    ((b.event c).deposit? = none ∧ (b.event c).completion = none ∨
      ∃ p, (b.event c).deposit? = some p ∧ past.length < awaited ∧
        (b.event c).completion = if past.length + 1 = awaited then
          some ⟨b.label, b.cycle, listing b.handles (past ++ [p]), b.retrievals⟩ else none) := by
  cases c with
  | register task =>
    exact ⟨(hb.register task).append_none rfl, .inl ⟨rfl, b.completion_register task⟩⟩
  | unregister h =>
    exact ⟨(hb.unregister h).append_none rfl, .inl ⟨rfl, b.completion_unregister h⟩⟩
  | publish payload =>
    -- an opening that succeeds is excluded, and one that is refused changes nothing
    have hphase : b.phase ≠ .idle := fun hphase => hopens (opens_of_idle hphase payload)
    rw [event, Box.perform, publish_of_busy payload hphase]
    exact ⟨append_none (b := b) hb rfl, .inl ⟨rfl, rfl⟩⟩
  | close =>
    rw [event, Box.perform, close_of_accumulate hb.mode]
    exact ⟨append_none (b := b) hb rfl, .inl ⟨rfl, rfl⟩⟩
  | retrieve h =>
    exact ⟨(hb.retrieve h).append_none rfl, .inl ⟨rfl, b.completion_retrieve h⟩⟩
  | deposit check h value =>
    rcases hb.deposit check h value with ⟨r, hr, -⟩ | ⟨b', hb', -, hlt, hr⟩
    · rw [event, Box.perform, hr]
      exact ⟨append_none (b := b) hb rfl, .inl ⟨rfl, rfl⟩⟩
    · rw [event, Box.perform, hr]
      exact ⟨hb', .inr ⟨(h, value), rfl, hlt, rfl⟩⟩

/-- **A run of calls in a cycle.** -/
theorem after (hb : b.InCycle awaited past) {calls : List (Call P D)}
    (hopens : ∀ e ∈ b.history calls, ¬ e.opens) :
    (b.after calls).InCycle awaited (past ++ accepted (b.history calls)) := by
  induction calls generalizing b past with
  | nil => exact (List.append_nil past).symm ▸ hb
  | cons c calls ih =>
    rw [history_cons, List.forall_mem_cons] at hopens
    have hnext := ih (hb.perform hopens.1).1 hopens.2
    rw [List.append_assoc] at hnext
    rw [after_cons, history_cons, accepted, List.filterMap_cons]
    cases hd : (b.event c).deposit? with
    | none =>
      rw [hd] at hnext
      exact hnext
    | some p =>
      rw [hd] at hnext
      exact hnext

/-- **The account at any moment of a cycle**, and what the next event adds to it. -/
theorem moment (hb : b.InCycle awaited []) {calls : List (Call P D)}
    (hopens : ∀ e ∈ b.history calls, ¬ e.opens) {early late : List (Event P D)} {e : Event P D}
    (hsplit : b.history calls = early ++ e :: late) :
    ∃ first c, b.history first = early ∧ (b.after first).event c = e ∧
      ((b.after first).perform c).box.InCycle awaited (accepted early ++ e.deposit?.toList) ∧
      (e.deposit? = none ∧ e.completion = none ∨
        ∃ p, e.deposit? = some p ∧ (accepted early).length < awaited ∧
          e.completion = if (accepted early).length + 1 = awaited then
            some ⟨(b.after first).label, (b.after first).cycle,
              listing (b.after first).handles (accepted early ++ [p]), (b.after first).retrievals⟩
          else none) := by
  obtain ⟨first, c, rest, rfl, hfirst, hc, -⟩ := history_eq_append_cons hsplit
  rw [hsplit, List.forall_mem_append, List.forall_mem_cons] at hopens
  -- the account up to the event, and then one call more
  have hthen := hb.after (hfirst ▸ hopens.1)
  rw [hfirst, List.nil_append] at hthen
  have hstep := hthen.perform (hc ▸ hopens.2.1)
  rw [hc] at hstep
  exact ⟨first, c, hfirst, hc, hstep.1, hstep.2⟩

end InCycle

/-! ## Exactness -/

/-- An event that does not register leaves the same handles out. -/
theorem Event.handlesAfter_of_not_registers {e : Event P D} (hr : ¬ e.registers)
    (out : List Handle) : e.handlesAfter out = out := by
  obtain ⟨call, outcome, completion⟩ := e
  cases call <;> cases outcome <;> first | rfl | exact absurd rfl hr

/-- A deposit that is accepted comes through a live handle into an accumulate box. -/
theorem live_of_deposit {b : Box P D} {c : Call P D} {p : Handle × D}
    (hd : (b.event c).deposit? = some p) : ∃ r, b.live? p.1 = some r ∧ b.mode = .accumulate := by
  cases c with
  | deposit check h value =>
    rcases b.deposit_cases check h value with ⟨r, hr, -⟩ | ⟨r, live, hmode, -⟩
    · rw [event, perform, hr] at hd
      cases hd
    · obtain rfl : (h, value) = p := by
        unfold event Event.deposit? at hd
        split at hd
        · next hcall _ =>
          cases hcall
          exact Option.some.inj hd
        · cases hd
      exact ⟨r, live, hmode⟩
  | _ => cases hd

/-- Deposits are accepted through handles that are out. -/
theorem mem_handles_of_deposit {b : Box P D} {c : Call P D} {p : Handle × D}
    (hd : (b.event c).deposit? = some p) : p.1 ∈ b.handles := by
  obtain ⟨r, live, -⟩ := live_of_deposit hd
  exact mem_handles_of_live live

/-- While registrations are left alone, the handles that deposit are among those that were out at
the beginning, and these stay out. -/
theorem undisturbed {b : Box P D} (hb : b.Orderly) {calls : List (Call P D)}
    (hregisters : ∀ e ∈ b.history calls, ¬ e.registers) :
    (b.after calls).handles = b.handles ∧
      (accepted (b.history calls)).map Prod.fst ⊆ b.handles := by
  induction calls generalizing b with
  | nil => exact ⟨rfl, List.nil_subset _⟩
  | cons c calls ih =>
    rw [history_cons, List.forall_mem_cons] at hregisters
    obtain ⟨hout, hdeposits⟩ := ih (hb.perform c) hregisters.2
    -- nothing registers, so the handles before the call are those after it
    have hsame : (b.perform c).box.handles = b.handles := by
      rw [handles_perform hb.nodup c, Event.handlesAfter_of_not_registers hregisters.1]
    rw [hsame] at hout hdeposits
    refine ⟨hout, ?_⟩
    rw [history_cons, accepted, List.filterMap_cons]
    cases hd : (b.event c).deposit? with
    | none => exact hdeposits
    | some p => exact List.cons_subset.mpr ⟨mem_handles_of_deposit hd, hdeposits⟩

/-- If everybody deposited, everybody is listed. -/
theorem map_fst_listing {out : List Handle} {held : List (Handle × D)}
    (hall : ∀ h ∈ out, h ∈ held.map Prod.fst) :
    (listing out held).map Prod.fst = out.map Handle.task := by
  induction out with
  | nil => rfl
  | cons h out ih =>
    rw [List.forall_mem_cons] at hall
    cases hv : held.lookup h with
    | none => exact absurd hall.1 (InCycle.not_mem_of_lookup hv)
    | some v =>
      rw [listing, List.filterMap_cons, hv]
      exact congrArg (h.task :: ·) (ih hall.2)

/-- As many different handles as are out, all of them out, are all that are out. -/
theorem subset_of_length {out : List Handle} {held : List (Handle × D)}
    (distinct : (held.map Prod.fst).Nodup) (hsub : held.map Prod.fst ⊆ out)
    (hlength : held.length = out.length) : ∀ h ∈ out, h ∈ held.map Prod.fst := by
  have hperm := (List.subperm_of_subset distinct hsub).perm_of_length_le (by simp [hlength])
  exact fun h hh => hperm.mem_iff.mpr hh

/-- A cycle that an idle accumulate box starts completes exactly, whatever calls follow. -/
theorem completesExactly_of_idle {b : Box P D} (hb : b.Orderly) (hmode : b.mode = .accumulate)
    (hphase : b.phase = .idle) {before : List (Event P D)} (hout : handlesOut before = b.handles)
    (payload : P) {calls : List (Call P D)}
    (hopens : ∀ e ∈ (b.publish payload).box.history calls, ¬ e.opens) :
    CompletesExactly b.label before (b.event (.publish payload))
      ((b.publish payload).box.history calls) := by
  have hcycle := InCycle.publish hb hmode payload hphase
  have hawaited : (handlesOut before).length = b.expected := by
    rw [hout, handles, List.length_map]
    rfl
  -- an opening leaves registrations alone, so the handles at the opening are those before it
  have hopening : (b.event (.publish payload)).handlesAfter b.handles = b.handles :=
    Event.handlesAfter_of_not_registers (by simp [event, Event.registers]) _
  have hlabel := (b.standing_publish payload).1
  have hhandles : (b.publish payload).box.handles = b.handles :=
    (handles_perform hb.nodup (.publish payload)).trans hopening
  generalize hs : (b.publish payload).box = s at hcycle hopens hlabel hhandles ⊢
  refine ⟨?_, ?_, ?_, ?_, ?_, ?_⟩
  · -- at the opening
    rw [hawaited]
    by_cases hnone : b.expected = 0
    · rw [event, perform, publish_of_unattended payload hphase hmode hnone, if_pos hnone]
      rfl
    · rw [event, perform, publish_of_idle payload hphase fun _ => hnone, if_neg hnone]
      rfl
  · -- at the last deposit awaited, and at no other event
    intro early e late hsplit
    obtain ⟨first, c, -, -, -, ⟨hd, hc⟩ | ⟨p, hd, -, hc⟩⟩ := hcycle.moment hopens hsplit
    · simp [hd, hc]
    · rw [hawaited, hd, hc]
      split <;> simp_all
  · have hend := hcycle.after hopens
    rw [hawaited, ← hend.counted, List.nil_append]
    exact Nat.le_add_right _ _
  · exact (hcycle.after hopens).distinct
  · -- what is listed is what the handles still out have deposited
    intro early e late c hsplit hcompletion
    obtain ⟨first, call, hfirst, -, -, ⟨-, hc⟩ | ⟨p, hd, -, hc⟩⟩ := hcycle.moment hopens hsplit
    · rw [hc] at hcompletion
      cases hcompletion
    · rw [hcompletion] at hc
      split at hc
      · obtain rfl := Option.some.inj hc
        refine ⟨((s.label_mode_after first).1).trans hlabel, ?_⟩
        rw [handlesOut, List.foldl_append, List.foldl_cons, ← hfirst,
          show before.foldl Event.handlesAfter [] = b.handles from hout, hopening, ← hhandles,
          ← handles_after hcycle.orderly, accepted, accepted, List.filterMap_append]
        simp [hd]
      · cases hc
  · -- with registrations left alone, as many handles as awaited have deposited, and all are out
    intro early e late c hsplit hcompletion hregisters
    obtain ⟨first, call, hfirst, hcall, hthen, ⟨-, hc⟩ | ⟨p, hd, -, hc⟩⟩ :=
      hcycle.moment hopens hsplit
    · rw [hc] at hcompletion
      cases hcompletion
    · rw [hcompletion] at hc
      split at hc
      · next hlast =>
        obtain rfl := Option.some.inj hc
        obtain ⟨hout', hsub⟩ := undisturbed hcycle.orderly (hfirst ▸ hregisters)
        have hp := mem_handles_of_deposit (hcall ▸ hd)
        rw [hfirst] at hsub
        rw [hout', hhandles] at hp
        rw [hhandles] at hsub
        have hheld := hthen.distinct
        rw [hd, Option.toList_some] at hheld
        rw [hout, ← hhandles, ← hout']
        refine map_fst_listing (subset_of_length hheld ?_ ?_)
        · rw [hout', hhandles, List.map_append]
          exact List.append_subset.mpr ⟨hsub, List.cons_subset.mpr ⟨hp, List.nil_subset _⟩⟩
        · rw [hout', hhandles, ← hout, hawaited, ← hlast, List.length_append,
            List.length_singleton]
      · cases hc

/-- **Completions are exact.** Take an accumulate box and any run of calls on it, with registrations
coming and going at any time and each deposit judged by a check of its own. Every cycle that the run
starts completes exactly; a deposit meets a count that is used up only if the owner's check says so;
and the computes registered after the run are those whose handles are out. -/
theorem completion_exact (serial : Nat) (label : BoxLabel) (calls : List (Call P D)) :
    (∀ before opening during late,
      (new serial label .accumulate).history calls = before ++ opening :: (during ++ late) →
      opening.opens → (∀ e ∈ during, ¬ e.opens) →
      CompletesExactly label before opening during) ∧
    (∀ e ∈ (new serial label .accumulate).history calls, ∀ l n,
      e.outcome = .error (.cycleExhausted l n) → ∃ check h value payload,
        e.call = .deposit check h value ∧
          check h.task payload value = .error (.cycleExhausted l n)) ∧
    ((new serial label .accumulate).after calls).tasks =
      (handlesOut ((new serial label .accumulate).history calls)).map Handle.task := by
  have hnew := orderly_new (P := P) (D := D) serial label .accumulate
  have hstands := label_mode_after (new serial label .accumulate : Box P D)
  refine ⟨?_, ?_, ?_⟩
  · intro before opening during late hsplit hopening hopens
    obtain ⟨first, c, rest, rfl, hfirst, rfl, hrest⟩ := history_eq_append_cons hsplit
    obtain ⟨third, fourth, rfl, hthird, -⟩ := history_eq_append hrest
    obtain ⟨hphase, payload, rfl⟩ := idle_of_opens hopening
    -- what is seen after the opening is the history of the box that was opened
    replace hthird : ((((new serial label .accumulate).after first).publish payload).box.history
        third) = during := hthird
    have hout : handlesOut before =
        ((new serial label .accumulate : Box P D).after first).handles := by
      rw [← hfirst, handlesOut_history]
    rw [← hthird] at hopens
    have hexact := completesExactly_of_idle (hnew.after first) (hstands first).2 hphase hout payload
      hopens
    rw [(hstands first).1, hthird] at hexact
    exact hexact
  · intro e he l n hexhausted
    obtain ⟨early, late, hsplit⟩ := List.append_of_mem he
    obtain ⟨first, c, rest, rfl, -, rfl, -⟩ := history_eq_append_cons hsplit
    exact (hnew.after first).check_of_exhausted hexhausted
  · rw [handlesOut_history, handles, tasks, List.map_map]
    rfl

end Box

end PatchDynamics
