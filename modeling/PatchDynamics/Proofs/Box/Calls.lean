import PatchDynamics.Box
import PatchDynamics.Proofs.Trace

/-!
# Runs of calls on a box

A box is used from two sides, by its owner and by the holders of handles, and all that either side
does is a call. This file makes calls and runs of calls into data, and says once what each call can
do to a box:

* `Call`, `perform` — a call, and the one function that makes it;
* `Event`, `history` — what is seen of every call of a run from outside: the call, its outcome and
  the completion that the owner heard while it ran;
* `Standing` — label, mode, phase and cycle of a box, which only three kinds of call move: an
  opening, a close, and the deposit that closes a cycle;
* `Orderly` — what holds of a box at every moment of a run.
-/

namespace PatchDynamics

/-- The reply with what the caller gets translated. -/
def Reply.map {P D α β : Type} (f : α → β) (r : Reply P D α) : Reply P D β :=
  ⟨r.outcome.map f, r.completion, r.box⟩

namespace Box

variable {P D : Type}

/-! ## Calls and events -/

/-- One call on a box. A deposit comes with the check that the owner makes of it, since nothing
obliges an owner to judge alike at all times. -/
inductive Call (P D : Type) where
  /-- registers a compute -/
  | register (task : ComputeId)
  /-- gives a handle back -/
  | unregister (h : Handle)
  /-- starts the next cycle -/
  | publish (payload : P)
  /-- ends the cycle of a read box -/
  | close
  /-- reads the payload -/
  | retrieve (h : Handle)
  /-- deposits a value -/
  | deposit (check : ComputeId → P → D → Except Refusal Unit) (h : Handle) (value : D)

/-- What a caller gets from a call that is not refused. -/
inductive Answer (P : Type) where
  /-- the handle of a new registration -/
  | handle (h : Handle)
  /-- the number of the cycle that was started -/
  | cycle (number : Nat)
  /-- the payload of the cycle under way -/
  | payload (payload : P)
  /-- nothing to tell -/
  | done

/-- Makes a call. -/
def perform (b : Box P D) : Call P D → Reply P D (Answer P)
  | .register task => (b.register task).map .handle
  | .unregister h => (b.unregister h).map fun _ => .done
  | .publish payload => (b.publish payload).map .cycle
  | .close => b.close.map fun _ => .done
  | .retrieve h => (b.retrieve h).map .payload
  | .deposit check h value => (b.deposit check h value).map fun _ => .done

/-- What is seen of one call from outside. -/
structure Event (P D : Type) where
  /-- the call -/
  call : Call P D
  /-- what the caller got -/
  outcome : Except Refusal (Answer P)
  /-- what the owner heard during the call -/
  completion : Option (Completion D)

/-- What is seen of a call on this box. -/
def event (b : Box P D) (c : Call P D) : Event P D :=
  ⟨c, (b.perform c).outcome, (b.perform c).completion⟩

/-- The box after some calls. -/
def after (b : Box P D) (calls : List (Call P D)) : Box P D :=
  calls.foldl (fun b c => (b.perform c).box) b

/-- What is seen of each of some calls, in order. -/
def history : Box P D → List (Call P D) → List (Event P D) :=
  trace (fun b c => (b.perform c).box) event

@[simp] theorem after_cons (b : Box P D) (c : Call P D) (calls : List (Call P D)) :
    b.after (c :: calls) = (b.perform c).box.after calls := rfl

theorem after_append (b : Box P D) (calls more : List (Call P D)) :
    b.after (calls ++ more) = (b.after calls).after more := List.foldl_append ..

@[simp] theorem history_nil (b : Box P D) : b.history [] = [] := rfl

@[simp] theorem history_cons (b : Box P D) (c : Call P D) (calls : List (Call P D)) :
    b.history (c :: calls) = b.event c :: (b.perform c).box.history calls := rfl

theorem history_append (b : Box P D) (calls more : List (Call P D)) :
    b.history (calls ++ more) = b.history calls ++ (b.after calls).history more :=
  trace_append b calls more

/-- Where a history is cut in two, the run was cut in two. -/
theorem history_eq_append {b : Box P D} {calls : List (Call P D)} {early late : List (Event P D)}
    (h : b.history calls = early ++ late) :
    ∃ first second, calls = first ++ second ∧ b.history first = early ∧
      (b.after first).history second = late := trace_eq_append h

/-- Where a history is cut at an event, the run was cut at its call. -/
theorem history_eq_append_cons {b : Box P D} {calls : List (Call P D)} {e : Event P D}
    {early late : List (Event P D)} (h : b.history calls = early ++ e :: late) :
    ∃ first c rest, calls = first ++ c :: rest ∧ b.history first = early ∧
      (b.after first).event c = e ∧ ((b.after first).perform c).box.history rest = late :=
  trace_eq_append_cons h

/-! ## Live registrations -/

/-- The handle that stands for a registration. -/
def handle (b : Box P D) (r : Registration D) : Handle := ⟨b.serial, r.task, r.token⟩

/-- The handles that are out, in the order of registration. -/
def handles (b : Box P D) : List Handle := b.registrations.map b.handle

theorem mem_of_live {b : Box P D} {h : Handle} {r : Registration D} (live : b.live? h = some r) :
    r ∈ b.registrations := by
  unfold live? at live
  split at live
  · exact List.mem_of_find?_eq_some live
  · cases live

theorem handle_of_live {b : Box P D} {h : Handle} {r : Registration D}
    (live : b.live? h = some r) : b.handle r = h := by
  unfold live? at live
  split at live
  · next hbox =>
    have hr := List.find?_some live
    simp only [decide_eq_true_eq] at hr
    cases h
    simp_all [handle]
  · cases live

theorem task_of_live {b : Box P D} {h : Handle} {r : Registration D}
    (live : b.live? h = some r) : r.task = h.task :=
  congrArg Handle.task (handle_of_live live)

/-- The handle of a registration is live, as no two registrations have the same compute. -/
theorem live_handle {b : Box P D} (nodup : b.tasks.Nodup) {r : Registration D}
    (mem : r ∈ b.registrations) : b.live? (b.handle r) = some r := by
  -- the search is over a list, so the claim is about lists
  have hfind : ∀ l : List (Registration D), (l.map Registration.task).Nodup → r ∈ l →
      l.find? (fun s => s.task = r.task ∧ s.token = r.token) = some r := by
    intro l
    induction l with
    | nil => exact fun _ hr => absurd hr List.not_mem_nil
    | cons s rest ih =>
      intro hl hr
      rw [List.map_cons, List.nodup_cons] at hl
      rcases List.mem_cons.mp hr with rfl | hr
      · simp
      · have hne : s.task ≠ r.task := fun h => hl.1 (h ▸ List.mem_map_of_mem hr)
        rw [List.find?_cons_of_neg (by simp [hne])]
        exact ih hl.2 hr
  rw [live?, if_pos (show (b.handle r).box = b.serial from rfl)]
  exact hfind b.registrations nodup mem

/-! ## What each call does -/

/-- Where a box stands: all that the owner and the consumers see of it besides registrations. -/
structure Standing where
  /-- the owner, and what the box carries -/
  label : BoxLabel
  /-- how consumers use the box -/
  mode : BoxMode
  /-- where the box stands -/
  phase : Phase
  /-- the number of the latest cycle -/
  cycle : Nat
  deriving DecidableEq

/-- Where this box stands. -/
def standing (b : Box P D) : Standing := ⟨b.label, b.mode, b.phase, b.cycle⟩

@[simp] theorem standing_start (b : Box P D) (payload : P) : (b.start payload).standing =
    { b.standing with phase := .opened, cycle := b.standing.cycle + 1 } := rfl

/-- A compute is not registered twice. -/
theorem register_of_mem {b : Box P D} {task : ComputeId} (hmem : task ∈ b.tasks) :
    b.register task = b.refuse (.alreadyRegistered b.label task) := if_pos hmem

/-- A handle that is not live is not taken back. -/
theorem unregister_of_unknown {b : Box P D} {h : Handle} (live : b.live? h = none) :
    b.unregister h = b.refuse (.unknownHandle b.label h.task) := by
  rw [unregister, live]

@[simp] theorem standing_register (b : Box P D) (task : ComputeId) :
    (b.register task).box.standing = b.standing := by
  unfold register
  split <;> rfl

@[simp] theorem completion_register (b : Box P D) (task : ComputeId) :
    (b.register task).completion = none := by
  unfold register
  split <;> rfl

@[simp] theorem standing_unregister (b : Box P D) (h : Handle) :
    (b.unregister h).box.standing = b.standing := by
  unfold unregister
  split <;> rfl

@[simp] theorem completion_unregister (b : Box P D) (h : Handle) :
    (b.unregister h).completion = none := by
  unfold unregister
  split <;> rfl

/-- A retrieval hands out the payload, or is refused. -/
theorem retrieve_cases (b : Box P D) (h : Handle) :
    (∃ r, b.retrieve h = b.refuse r ∧ ∀ label cycle, r ≠ .cycleExhausted label cycle) ∨
    ∃ payload, b.phase = .opened ∧ b.payload = some payload ∧
      b.retrieve h = ⟨.ok payload, none, { b with retrievals := b.retrievals + 1 }⟩ := by
  unfold retrieve
  split
  · exact .inl ⟨_, rfl, nofun⟩
  · split
    · exact .inl ⟨_, rfl, nofun⟩
    · next hphase =>
      split
      · exact .inl ⟨_, rfl, nofun⟩
      · next payload hpayload =>
        exact .inr ⟨payload, Decidable.not_not.mp hphase, hpayload, rfl⟩

/-- A live handle reads the payload of the cycle under way. -/
theorem retrieve_of_live {b : Box P D} {h : Handle} {r : Registration D} {payload : P}
    (live : b.live? h = some r) (hphase : b.phase = .opened) (hpayload : b.payload = some payload) :
    b.retrieve h = ⟨.ok payload, none, { b with retrievals := b.retrievals + 1 }⟩ := by
  rw [retrieve, live]
  dsimp only
  rw [if_neg (Decidable.not_not.mpr hphase), hpayload]

@[simp] theorem standing_retrieve (b : Box P D) (h : Handle) :
    (b.retrieve h).box.standing = b.standing := by
  rcases b.retrieve_cases h with ⟨_, hr, -⟩ | ⟨_, -, -, hr⟩ <;> rw [hr] <;> rfl

@[simp] theorem completion_retrieve (b : Box P D) (h : Handle) :
    (b.retrieve h).completion = none := by
  rcases b.retrieve_cases h with ⟨_, hr, -⟩ | ⟨_, -, -, hr⟩ <;> simp [hr, refuse]

/-- The owner's close of an open read box. -/
theorem close_of_opened {b : Box P D} (hmode : b.mode = .read) (hphase : b.phase = .opened) :
    b.close = ⟨.ok (), some ⟨b.label, b.cycle, [], b.retrievals⟩, { b with phase := .idle }⟩ := by
  rw [close, if_neg (by simp [hmode]), if_neg (by simp [hphase])]
  rfl

/-- A read box that is not open is not closed again. -/
theorem close_of_not_opened {b : Box P D} (hmode : b.mode = .read) (hphase : b.phase ≠ .opened) :
    b.close = b.refuse (.notOpen b.label) := by
  rw [close, if_neg (by simp [hmode]), if_pos hphase]

/-- The owner never closes an accumulate box. -/
theorem close_of_accumulate {b : Box P D} (hmode : b.mode = .accumulate) :
    b.close = b.refuse (.closedByDeposits b.label) := by
  rw [close, if_pos hmode]

/-- An opening of a box that waits for deposits, or is only read. -/
theorem publish_of_idle {b : Box P D} (payload : P) (hphase : b.phase = .idle)
    (hwaits : b.mode = .accumulate → b.expected ≠ 0) :
    b.publish payload = ⟨.ok (b.cycle + 1), none, b.start payload⟩ := by
  rw [publish, if_neg (by simp [hphase]), if_neg fun h => hwaits h.1 h.2]
  rfl

/-- An opening of a read box waits for nobody. -/
theorem publish_of_read {b : Box P D} (payload : P) (hphase : b.phase = .idle)
    (hmode : b.mode = .read) : b.publish payload = ⟨.ok (b.cycle + 1), none, b.start payload⟩ :=
  publish_of_idle payload hphase fun hm => by rw [hmode] at hm; cases hm

/-- The box after a cycle that waited for no deposit. -/
def unattended (b : Box P D) (payload : P) : Box P D :=
  { (b.start payload).shut with phase := .idle }

/-- An opening of an accumulate box that waits for no deposit. -/
theorem publish_of_unattended {b : Box P D} (payload : P) (hphase : b.phase = .idle)
    (hmode : b.mode = .accumulate) (hnone : b.expected = 0) :
    b.publish payload =
      ⟨.ok (b.cycle + 1), some ⟨b.label, b.cycle + 1, [], 0⟩, b.unattended payload⟩ := by
  rw [publish, if_neg (by simp [hphase]), if_pos ⟨hmode, hnone⟩]
  rfl

/-- A busy box is not opened. -/
theorem publish_of_busy {b : Box P D} (payload : P) (hphase : b.phase ≠ .idle) :
    b.publish payload = b.refuse (.alreadyOpen b.label b.cycle) := by
  rw [publish, if_pos hphase]

/-- What the first look at a handle has seen when it lets a deposit pass. -/
theorem admitted {b : Box P D} {h : Handle} {cycle : Nat} (hadm : b.admission h = .ok cycle) :
    ∃ r, b.live? h = some r ∧ b.mode = .accumulate ∧ b.phase = .opened ∧ cycle = b.cycle := by
  unfold admission at hadm
  split at hadm
  · cases hadm
  · next r live =>
    split at hadm
    · cases hadm
    · next hmode =>
      split at hadm
      · cases hadm
      · split at hadm
        · cases hadm
        · next hphase =>
          refine ⟨r, live, ?_, Decidable.not_not.mp hphase, (Except.ok.inj hadm).symm⟩
          cases hm : b.mode with
          | read => exact absurd hm hmode
          | accumulate => rfl

/-- A live handle that is not spent deposits into an open box what the check lets pass. -/
theorem deposit_of_live {b : Box P D} {check : ComputeId → P → D → Except Refusal Unit}
    {h : Handle} {value : D} {r : Registration D} (live : b.live? h = some r)
    (hmode : b.mode = .accumulate) (hphase : b.phase = .opened) (hfresh : r.lastCycle ≠ b.cycle)
    (hjudge : b.judge check h.task value = .ok ()) :
    b.deposit check h value = (b.keep h b.cycle value).countDown b.cycle := by
  have hadm : b.admission h = .ok b.cycle := by
    simp [admission, live, hmode, hfresh, hphase]
  rw [deposit, hadm]
  simp only [hjudge, settle, live]
  rw [if_neg hfresh]

/-- A verdict against a value is the check's own. -/
theorem check_of_judge {b : Box P D} {check : ComputeId → P → D → Except Refusal Unit}
    {task : ComputeId} {value : D} {r : Refusal} (hjudge : b.judge check task value = .error r) :
    ∃ payload, check task payload value = .error r := by
  unfold judge at hjudge
  split at hjudge
  · cases hjudge
  · next payload _ => exact ⟨payload, hjudge⟩

/-- A deposit is refused before it is kept, or it is kept and counted. Only the check can speak of
an exhausted cycle before that. -/
theorem deposit_cases (b : Box P D) (check : ComputeId → P → D → Except Refusal Unit) (h : Handle)
    (value : D) :
    (∃ r, b.deposit check h value = b.refuse r ∧ ∀ label cycle, r = .cycleExhausted label cycle →
      ∃ payload, check h.task payload value = .error r) ∨
    ∃ r, b.live? h = some r ∧ b.mode = .accumulate ∧ b.phase = .opened ∧ r.lastCycle ≠ b.cycle ∧
      b.judge check h.task value = .ok () ∧
      b.deposit check h value = (b.keep h b.cycle value).countDown b.cycle := by
  rcases hadm : b.admission h with e | cycle
  · -- the three reasons against an admission are none of them an exhausted cycle
    refine .inl ⟨e, by rw [deposit, hadm], fun label cycle he => ?_⟩
    subst he
    unfold admission at hadm
    repeat' split at hadm
    all_goals cases hadm
  · obtain ⟨r, live, hmode, hphase, rfl⟩ := admitted hadm
    rcases hjudge : b.judge check h.task value with e | _
    · refine .inl ⟨e, by rw [deposit, hadm, hjudge], fun label cycle he => ?_⟩
      exact check_of_judge hjudge
    · by_cases hspent : r.lastCycle = b.cycle
      · refine .inl ⟨.doubleUse b.label h.task b.cycle, ?_, nofun⟩
        rw [deposit, hadm]
        simp only [hjudge, settle, live]
        rw [if_pos hspent]
      · exact .inr ⟨r, live, hmode, hphase, hspent, rfl,
          deposit_of_live live hmode hphase hspent hjudge⟩

/-- Nobody deposits into a read box. -/
theorem deposit_of_read {b : Box P D} (hmode : b.mode = .read)
    (check : ComputeId → P → D → Except Refusal Unit) (h : Handle) (value : D) :
    ∃ r, b.deposit check h value = b.refuse r := by
  rcases b.deposit_cases check h value with ⟨r, hr, -⟩ | ⟨_, -, haccumulate, -⟩
  · exact ⟨r, hr⟩
  · rw [hmode] at haccumulate
    cases haccumulate

/-- The box between cycles: nothing awaited, nothing held. -/
def emptied (b : Box P D) : Box P D :=
  { ({ b with remaining := 0 } : Box P D).shut with phase := .idle }

@[simp] theorem tasks_emptied (b : Box P D) : b.emptied.tasks = b.tasks := tasks_shut _

/-- No count is left for a deposit. -/
theorem countDown_of_none {b : Box P D} (cycle : Nat) (hleft : b.remaining = 0) :
    b.countDown cycle = b.refuse (.cycleExhausted b.label cycle) := by
  rw [countDown, hleft]

/-- The last deposit closes the cycle. -/
theorem countDown_of_last {b : Box P D} (cycle : Nat) (hleft : b.remaining = 1) :
    b.countDown cycle =
      ⟨.ok (), some ⟨b.label, cycle, b.collected, b.retrievals⟩, b.emptied⟩ := by
  rw [countDown, hleft]
  rfl

/-- A deposit before the last only counts. -/
theorem countDown_of_more {b : Box P D} (cycle : Nat) (hleft : 1 < b.remaining) :
    b.countDown cycle = ⟨.ok (), none, { b with remaining := b.remaining - 1 }⟩ := by
  obtain ⟨left, hleft⟩ : ∃ left, b.remaining = left + 2 := ⟨b.remaining - 2, by omega⟩
  rw [countDown, hleft]
  rfl

/-- A count either leaves the box standing, or it completes the cycle. -/
theorem countDown_cases (b : Box P D) (cycle : Nat) :
    ((b.countDown cycle).completion = none ∧ (b.countDown cycle).box.standing = b.standing) ∨
    ∃ c, (b.countDown cycle).completion = some c ∧ c.cycle = cycle ∧
      (b.countDown cycle).box.standing = { b.standing with phase := .idle } := by
  rcases Nat.lt_trichotomy b.remaining 1 with hleft | hleft | hleft
  · rw [countDown_of_none cycle (by omega)]
    exact .inl ⟨rfl, rfl⟩
  · rw [countDown_of_last cycle hleft]
    exact .inr ⟨_, rfl, rfl, rfl⟩
  · rw [countDown_of_more cycle hleft]
    exact .inl ⟨rfl, rfl⟩

/-- **What a deposit does to where the box stands**: nothing, or it completes the cycle that was
under way. -/
theorem deposit_standing (b : Box P D) (check : ComputeId → P → D → Except Refusal Unit)
    (h : Handle) (value : D) :
    ((b.deposit check h value).completion = none ∧
      (b.deposit check h value).box.standing = b.standing) ∨
    ∃ c, (b.deposit check h value).completion = some c ∧ c.cycle = b.cycle ∧
      b.mode = .accumulate ∧ b.phase = .opened ∧
      (b.deposit check h value).box.standing = { b.standing with phase := .idle } := by
  rcases b.deposit_cases check h value with ⟨r, hr, -⟩ | ⟨r, -, hmode, hphase, -, -, hr⟩
  · rw [hr]
    exact .inl ⟨rfl, rfl⟩
  · rw [hr]
    rcases (b.keep h b.cycle value).countDown_cases b.cycle with ⟨hc, hs⟩ | ⟨c, hc, hcycle, hs⟩
    · exact .inl ⟨hc, hs⟩
    · exact .inr ⟨c, hc, hcycle, hmode, hphase, hs⟩

/-- A call other than an opening leaves the box where it stands, or completes the cycle under
way. -/
theorem perform_standing (b : Box P D) {c : Call P D} (hc : ∀ payload, c ≠ .publish payload) :
    ((b.perform c).completion = none ∧ (b.perform c).box.standing = b.standing) ∨
    ∃ done, (b.perform c).completion = some done ∧ done.cycle = b.cycle ∧ b.phase = .opened ∧
      (b.perform c).box.standing = { b.standing with phase := .idle } := by
  cases c with
  | register task => exact .inl ⟨b.completion_register task, b.standing_register task⟩
  | unregister h => exact .inl ⟨b.completion_unregister h, b.standing_unregister h⟩
  | publish payload => exact absurd rfl (hc payload)
  | close =>
    cases hmode : b.mode with
    | accumulate =>
      rw [perform, close_of_accumulate hmode]
      exact .inl ⟨rfl, rfl⟩
    | read =>
      by_cases hphase : b.phase = .opened
      · rw [perform, close_of_opened hmode hphase]
        exact .inr ⟨_, rfl, rfl, hphase, rfl⟩
      · rw [perform, close_of_not_opened hmode hphase]
        exact .inl ⟨rfl, rfl⟩
  | retrieve h => exact .inl ⟨b.completion_retrieve h, b.standing_retrieve h⟩
  | deposit check h value =>
    rcases b.deposit_standing check h value with hnone | ⟨done, hdone, hcycle, -, hphase, hs⟩
    · exact .inl hnone
    · exact .inr ⟨done, hdone, hcycle, hphase, hs⟩

/-- An opening keeps the owner and the mode of the box. -/
theorem standing_publish (b : Box P D) (payload : P) :
    (b.publish payload).box.label = b.label ∧ (b.publish payload).box.mode = b.mode := by
  by_cases hphase : b.phase = .idle
  · by_cases hwaits : b.mode = .accumulate ∧ b.expected = 0
    · rw [publish_of_unattended payload hphase hwaits.1 hwaits.2]
      exact ⟨rfl, rfl⟩
    · rw [publish_of_idle payload hphase fun hm he => hwaits ⟨hm, he⟩]
      exact ⟨rfl, rfl⟩
  · rw [publish_of_busy payload hphase]
    exact ⟨rfl, rfl⟩

/-- A close keeps the owner and the mode of the box. -/
theorem standing_close (b : Box P D) : b.close.box.label = b.label ∧ b.close.box.mode = b.mode := by
  cases hmode : b.mode with
  | accumulate =>
    rw [close_of_accumulate hmode]
    exact ⟨rfl, hmode⟩
  | read =>
    by_cases hphase : b.phase = .opened
    · rw [close_of_opened hmode hphase]
      exact ⟨rfl, hmode⟩
    · rw [close_of_not_opened hmode hphase]
      exact ⟨rfl, hmode⟩

/-- No call changes whose box it is and how it is used. -/
theorem label_mode_perform (b : Box P D) (c : Call P D) :
    (b.perform c).box.label = b.label ∧ (b.perform c).box.mode = b.mode := by
  have of_standing {s : Box P D} (hs : s.standing = b.standing) :
      s.label = b.label ∧ s.mode = b.mode :=
    ⟨congrArg Standing.label hs, congrArg Standing.mode hs⟩
  cases c with
  | register task => exact of_standing (b.standing_register task)
  | unregister h => exact of_standing (b.standing_unregister h)
  | publish payload => exact b.standing_publish payload
  | close => exact b.standing_close
  | retrieve h => exact of_standing (b.standing_retrieve h)
  | deposit check h value =>
    rcases b.deposit_standing check h value with ⟨-, hs⟩ | ⟨_, -, -, -, -, hs⟩
    · exact of_standing hs
    · exact ⟨congrArg Standing.label hs, congrArg Standing.mode hs⟩

theorem label_mode_after (b : Box P D) (calls : List (Call P D)) :
    (b.after calls).label = b.label ∧ (b.after calls).mode = b.mode := by
  induction calls generalizing b with
  | nil => exact ⟨rfl, rfl⟩
  | cons c calls ih =>
    obtain ⟨hlabel, hmode⟩ := b.label_mode_perform c
    rw [after_cons, (ih _).1, (ih _).2, hlabel, hmode]
    exact ⟨rfl, rfl⟩

/-! ## The invariant of a run -/

/-- What holds of a box at every moment of a run: the bookkeeping of its registrations agrees with
where the box stands. -/
structure Orderly (b : Box P D) : Prop where
  /-- no compute is registered twice -/
  nodup : b.tasks.Nodup
  /-- tokens are not issued twice -/
  issued : ∀ r ∈ b.registrations, r.token < b.nextToken
  /-- no handle was spent in a cycle to come -/
  spent : ∀ r ∈ b.registrations, r.lastCycle ≤ b.cycle
  /-- nobody finds the box between the end of a cycle and the completion -/
  unclosed : b.phase ≠ .closed
  /-- values are held only on an accumulate box, in the cycle that they were deposited in -/
  holding : ∀ r ∈ b.registrations, r.value ≠ none →
    b.mode = .accumulate ∧ b.phase = .opened ∧ r.lastCycle = b.cycle
  /-- a cycle under way has a number and a payload -/
  started : b.phase = .opened → 0 < b.cycle ∧ b.payload ≠ none
  /-- an accumulate box is open exactly while it waits for deposits -/
  awaiting : b.mode = .accumulate → (b.phase = .opened ↔ 0 < b.remaining)

theorem orderly_new (serial : Nat) (label : BoxLabel) (mode : BoxMode) :
    (new serial label mode : Box P D).Orderly where
  nodup := List.nodup_nil
  issued := nofun
  spent := nofun
  unclosed := nofun
  holding := nofun
  started := nofun
  awaiting := fun _ => ⟨nofun, nofun⟩

namespace Orderly

variable {b : Box P D}

theorem register (hb : b.Orderly) (task : ComputeId) : (b.register task).box.Orderly := by
  unfold Box.register
  split
  · exact hb
  · next hnew =>
    refine ⟨?_, ?_, ?_, hb.unclosed, ?_, hb.started, hb.awaiting⟩
    · rw [Box.tasks, List.map_append]
      refine List.nodup_append.mpr ⟨hb.nodup, by simp, ?_⟩
      rintro a ha c hc rfl
      have hc : a = task := List.mem_singleton.mp hc
      exact hnew (hc ▸ ha)
    · intro r hr
      rcases List.mem_append.mp hr with hr | hr
      · exact Nat.lt_succ_of_lt (hb.issued r hr)
      · rw [List.mem_singleton.mp hr]
        exact Nat.lt_succ_self _
    · intro r hr
      rcases List.mem_append.mp hr with hr | hr
      · exact hb.spent r hr
      · rw [List.mem_singleton.mp hr]
        exact Nat.zero_le _
    · intro r hr hvalue
      rcases List.mem_append.mp hr with hr | hr
      · exact hb.holding r hr hvalue
      · rw [List.mem_singleton.mp hr] at hvalue
        exact absurd rfl hvalue

theorem unregister (hb : b.Orderly) (h : Handle) : (b.unregister h).box.Orderly := by
  unfold Box.unregister
  split
  · exact hb
  · have hsub := List.filter_sublist (p := fun r => decide (r.task ≠ h.task))
      (l := b.registrations)
    refine ⟨hb.nodup.sublist (hsub.map _), ?_, ?_, hb.unclosed, ?_, hb.started, hb.awaiting⟩
    · exact fun r hr => hb.issued r (hsub.mem hr)
    · exact fun r hr => hb.spent r (hsub.mem hr)
    · exact fun r hr => hb.holding r (hsub.mem hr)

theorem retrieve (hb : b.Orderly) (h : Handle) : (b.retrieve h).box.Orderly := by
  rcases b.retrieve_cases h with ⟨_, hr, -⟩ | ⟨_, -, -, hr⟩ <;> rw [hr]
  · exact hb
  · exact ⟨hb.nodup, hb.issued, hb.spent, hb.unclosed, hb.holding, hb.started, hb.awaiting⟩

/-- A box between cycles holds no value. -/
theorem value_of_not_opened (hb : b.Orderly) (hphase : b.phase ≠ .opened) {r : Registration D}
    (mem : r ∈ b.registrations) : r.value = none := by
  rcases hvalue : r.value with _ | v
  · rfl
  · exact absurd (hb.holding r mem (by simp [hvalue])).2.1 hphase

theorem emptied (hb : b.Orderly) : b.emptied.Orderly where
  nodup := by
    rw [tasks_emptied]
    exact hb.nodup
  issued := by
    intro r hr
    obtain ⟨s, hs, rfl⟩ := List.mem_map.mp hr
    exact hb.issued s hs
  spent := by
    intro r hr
    obtain ⟨s, hs, rfl⟩ := List.mem_map.mp hr
    exact hb.spent s hs
  unclosed := nofun
  holding := by
    intro r hr hvalue
    obtain ⟨s, hs, rfl⟩ := List.mem_map.mp hr
    exact absurd rfl hvalue
  started := nofun
  awaiting := fun _ => ⟨nofun, fun h => absurd h (Nat.lt_irrefl 0)⟩

/-- Between cycles nothing is held and nothing awaited, so the next cycle starts in order; an
accumulate box needs somebody to wait for. -/
theorem start (hb : b.Orderly) (payload : P) (hphase : b.phase = .idle)
    (hwaits : b.mode = .accumulate → b.expected ≠ 0) : (b.start payload).Orderly where
  nodup := hb.nodup
  issued := hb.issued
  spent := fun r hr => Nat.le_succ_of_le (hb.spent r hr)
  unclosed := nofun
  holding := by
    intro r hr hvalue
    exact absurd (hb.value_of_not_opened (by simp [hphase]) hr) hvalue
  started := fun _ => ⟨Nat.succ_pos _, nofun⟩
  awaiting := fun hmode => ⟨fun _ => Nat.pos_of_ne_zero (hwaits hmode), fun _ => rfl⟩

theorem start_read (hb : b.Orderly) (payload : P) (hphase : b.phase = .idle)
    (hmode : b.mode = .read) : (b.start payload).Orderly :=
  hb.start payload hphase fun hm => by rw [hmode] at hm; cases hm

theorem publish (hb : b.Orderly) (payload : P) : (b.publish payload).box.Orderly := by
  by_cases hphase : b.phase = .idle
  · by_cases hwaits : b.mode = .accumulate ∧ b.expected = 0
    · have hnil : b.registrations = [] := List.eq_nil_of_length_eq_zero hwaits.2
      -- nobody is registered, so nothing is left to say of registrations
      have hnone : (b.unattended payload).registrations = [] := by
        simp [Box.unattended, Box.shut, Box.start, hnil]
      have hidle : (b.unattended payload).phase = .idle := rfl
      rw [publish_of_unattended payload hphase hwaits.1 hwaits.2]
      refine ⟨?_, ?_, ?_, ?_, ?_, ?_, fun _ => ⟨?_, ?_⟩⟩
      · rw [Box.tasks, hnone]
        exact List.nodup_nil
      · exact hnone ▸ List.forall_mem_nil _
      · exact hnone ▸ List.forall_mem_nil _
      · simp [hidle]
      · exact hnone ▸ List.forall_mem_nil _
      · simp [hidle]
      · simp [hidle]
      · exact fun h => absurd hwaits.2 (Nat.ne_of_gt h)
    · have hwaits : b.mode = .accumulate → b.expected ≠ 0 := fun hm he => hwaits ⟨hm, he⟩
      rw [publish_of_idle payload hphase hwaits]
      exact hb.start payload hphase hwaits
  · rw [publish_of_busy payload hphase]
    exact hb

/-- A read box holds nothing that the end of a cycle would have to clear away. -/
theorem shut (hb : b.Orderly) (hmode : b.mode = .read) :
    ({ b with phase := .idle } : Box P D).Orderly := by
  refine ⟨hb.nodup, hb.issued, hb.spent, nofun, ?_, nofun, ?_⟩
  · intro r hr hvalue
    rw [(hb.holding r hr hvalue).1] at hmode
    cases hmode
  · intro hm
    rw [show b.mode = .accumulate from hm] at hmode
    cases hmode

theorem close (hb : b.Orderly) : b.close.box.Orderly := by
  cases hmode : b.mode with
  | accumulate =>
    rw [close_of_accumulate hmode]
    exact hb
  | read =>
    by_cases hphase : b.phase = .opened
    · rw [close_of_opened hmode hphase]
      exact hb.shut hmode
    · rw [close_of_not_opened hmode hphase]
      exact hb

/-- Keeping a value spends the handle in the cycle under way. -/
theorem keep (hb : b.Orderly) (h : Handle) (value : D) (hmode : b.mode = .accumulate)
    (hphase : b.phase = .opened) : (b.keep h b.cycle value).Orderly where
  nodup := by
    rw [tasks_keep]
    exact hb.nodup
  issued := by
    intro r hr
    obtain ⟨s, hs, rfl⟩ := List.mem_map.mp hr
    split <;> exact hb.issued s hs
  spent := by
    intro r hr
    obtain ⟨s, hs, rfl⟩ := List.mem_map.mp hr
    split
    · exact Nat.le_refl _
    · exact hb.spent s hs
  unclosed := hb.unclosed
  holding := by
    intro r hr hvalue
    obtain ⟨s, hs, rfl⟩ := List.mem_map.mp hr
    refine ⟨hmode, hphase, ?_⟩
    split at hvalue
    · next htask =>
      rw [if_pos htask]
      rfl
    · next htask =>
      rw [if_neg htask]
      exact (hb.holding s hs hvalue).2.2
  started := hb.started
  awaiting := hb.awaiting

theorem countDown (hb : b.Orderly) (cycle : Nat) (hmode : b.mode = .accumulate)
    (hphase : b.phase = .opened) : (b.countDown cycle).box.Orderly := by
  have hpos : 0 < b.remaining := (hb.awaiting hmode).mp hphase
  by_cases hlast : b.remaining = 1
  · rw [countDown_of_last cycle hlast]
    exact hb.emptied
  · rw [countDown_of_more cycle (by omega)]
    refine ⟨hb.nodup, hb.issued, hb.spent, hb.unclosed, hb.holding, hb.started, fun _ => ?_⟩
    exact ⟨fun _ => Nat.sub_pos_of_lt (by omega), fun _ => hphase⟩

theorem deposit (hb : b.Orderly) (check : ComputeId → P → D → Except Refusal Unit) (h : Handle)
    (value : D) : (b.deposit check h value).box.Orderly := by
  rcases b.deposit_cases check h value with ⟨r, hr, -⟩ | ⟨r, -, hmode, hphase, -, -, hr⟩
  · rw [hr]
    exact hb
  · rw [hr]
    exact (hb.keep h value hmode hphase).countDown b.cycle hmode hphase

/-- **One call keeps a box in order.** -/
theorem perform (hb : b.Orderly) (c : Call P D) : (b.perform c).box.Orderly := by
  cases c with
  | register task => exact hb.register task
  | unregister h => exact hb.unregister h
  | publish payload => exact hb.publish payload
  | close => exact hb.close
  | retrieve h => exact hb.retrieve h
  | deposit check h value => exact hb.deposit check h value

/-- A run of calls keeps a box in order. -/
theorem after (hb : b.Orderly) (calls : List (Call P D)) : (b.after calls).Orderly := by
  induction calls generalizing b with
  | nil => exact hb
  | cons c calls ih => exact ih (hb.perform c)

/-- A box in order has counts left for all deposits that get as far as the count: of an exhausted
cycle only the owner's own check can speak. -/
theorem check_of_exhausted (hb : b.Orderly) {c : Call P D} {label : BoxLabel} {cycle : Nat}
    (he : (b.perform c).outcome = .error (.cycleExhausted label cycle)) :
    ∃ check h value payload, c = .deposit check h value ∧
      check h.task payload value = .error (.cycleExhausted label cycle) := by
  cases c with
  | register task =>
    rw [Box.perform, Box.register] at he
    split at he <;> cases he
  | unregister h =>
    rw [Box.perform, Box.unregister] at he
    split at he <;> cases he
  | publish payload =>
    rw [Box.perform, Box.publish] at he
    split at he
    · cases he
    · dsimp only at he
      split at he <;> cases he
  | close =>
    rw [Box.perform, Box.close] at he
    split at he
    · cases he
    · split at he <;> cases he
  | retrieve h =>
    rcases b.retrieve_cases h with ⟨r, hr, hne⟩ | ⟨_, -, -, hr⟩
    · rw [Box.perform, hr] at he
      exact absurd (Except.error.inj he) (hne label cycle)
    · rw [Box.perform, hr] at he
      cases he
  | deposit check h value =>
    rcases b.deposit_cases check h value with ⟨r, hr, hcheck⟩ | ⟨r, -, hmode, hphase, -, -, hr⟩
    · rw [Box.perform, hr] at he
      obtain rfl := Except.error.inj he
      obtain ⟨payload, hpayload⟩ := hcheck label cycle rfl
      exact ⟨check, h, value, payload, rfl, hpayload⟩
    · have hpos : 0 < b.remaining := (hb.awaiting hmode).mp hphase
      rw [Box.perform, hr] at he
      by_cases hlast : b.remaining = 1
      · rw [countDown_of_last (b := b.keep h b.cycle value) b.cycle hlast] at he
        cases he
      · rw [countDown_of_more (b := b.keep h b.cycle value) b.cycle
          (show 1 < b.remaining by omega)] at he
        cases he

end Orderly

end Box

end PatchDynamics
