import PatchDynamics.Proofs.Box.Reopening

/-!
# Retrieval is an observation

A retrieval hands out the payload and counts itself; nothing else in the box looks at the count but
the completion, which reports it. So retrievals can be left out of a run, and nothing but the counts
changes. Three layers:

* `Effect` — what one call does, as far as payload, count and cycle go;
* `Tells` — the invariant of one run: while a cycle is under way, the box holds the payload of the
  opening that began it and the number of retrievals since;
* `Alike`, `unread` — two runs: replies and boxes that differ in the number of retrievals only.

The main statement is `retrieval_observes`.
-/

namespace PatchDynamics

/-- The completion without its number of retrievals. -/
def Completion.unread {D : Type} (c : Completion D) : Completion D := { c with retrievals := 0 }

namespace Box

variable {P D : Type}

/-! ## Openings and retrievals among events -/

/-- The event is an opening that succeeds: it begins a cycle with a payload. -/
def Event.Opens (e : Event P D) (cycle : Nat) (payload : P) : Prop :=
  e.call = .publish payload ∧ e.outcome = .ok (.cycle cycle)

/-- The event is a retrieval that succeeds. -/
def Event.reads (e : Event P D) : Bool :=
  match e.call, e.outcome with
  | .retrieve _, .ok _ => true
  | _, _ => false

/-- The latest opening began a cycle with a payload; no completion was heard since, and some number
of retrievals succeeded. -/
def UnderWay (es : List (Event P D)) (cycle : Nat) (payload : P) (retrievals : Nat) : Prop :=
  ∃ early opening late, es = early ++ opening :: late ∧ opening.Opens cycle payload ∧
    (∀ e ∈ opening :: late, e.completion = none) ∧
    (∀ e ∈ late, ∀ cycle payload, ¬ e.Opens cycle payload) ∧
    retrievals = late.countP Event.reads

variable {es : List (Event P D)} {e : Event P D} {cycle k : Nat} {payload : P} {b b' : Box P D}

/-- The cycle stays under way as long as nothing is opened and no completion heard. -/
theorem UnderWay.concat (h : UnderWay es cycle payload k) (hcompletion : e.completion = none)
    (hopens : ∀ cycle payload, ¬ e.Opens cycle payload) :
    UnderWay (es ++ [e]) cycle payload (k + [e].countP Event.reads) := by
  obtain ⟨early, opening, late, rfl, hopening, hnone, hlate, rfl⟩ := h
  refine ⟨early, opening, late ++ [e], by simp, hopening, ?_, ?_, List.countP_append.symm⟩
  · rw [← List.cons_append, List.forall_mem_append]
    exact ⟨hnone, List.forall_mem_singleton.mpr hcompletion⟩
  · rw [List.forall_mem_append]
    exact ⟨hlate, List.forall_mem_singleton.mpr hopens⟩

/-- An opening that completes nothing brings its cycle under way. -/
theorem Event.Opens.underWay (h : e.Opens cycle payload) (hcompletion : e.completion = none)
    (es : List (Event P D)) : UnderWay (es ++ [e]) cycle payload 0 :=
  ⟨es, e, [], rfl, h, List.forall_mem_singleton.mpr hcompletion, List.forall_mem_nil _, rfl⟩

/-! ## One run -/

/-- What one call does to the payload, the count of retrievals and the cycle of a box, and how that
is seen. -/
inductive Effect (b : Box P D) (e : Event P D) (b' : Box P D) : Prop where
  /-- nothing -/
  | quiet (hcompletion : e.completion = none) (hopens : ∀ cycle payload, ¬ e.Opens cycle payload)
    (hreads : ∀ h, e.call = .retrieve h → ∃ r, e.outcome = .error r)
    (hstanding : b'.standing = b.standing) (hpayload : b'.payload = b.payload)
    (hretrievals : b'.retrievals = b.retrievals)
  /-- it hands out the payload and counts that -/
  | reads (h : Handle) (payload : P) (hphase : b.phase = .opened)
    (hpayload : b.payload = some payload) (he : e = ⟨.retrieve h, .ok (.payload payload), none⟩)
    (hbox : b' = { b with retrievals := b.retrievals + 1 })
  /-- it begins the next cycle -/
  | opens (payload : P) (he : e = ⟨.publish payload, .ok (.cycle (b.cycle + 1)), none⟩)
    (hbox : b' = b.start payload)
  /-- it begins the next cycle and completes it -/
  | passes (payload : P) (done : Completion D) (hopens : e.Opens (b.cycle + 1) payload)
    (hcompletion : e.completion = some done) (hcycle : done.cycle = b.cycle + 1)
    (hretrievals : done.retrievals = 0) (hphase : b'.phase = .idle)
  /-- it completes the cycle under way -/
  | completes (done : Completion D) (hopened : b.phase = .opened)
    (hreads : ∀ h, e.call ≠ .retrieve h) (hcompletion : e.completion = some done)
    (hcycle : done.cycle = b.cycle) (hretrievals : done.retrievals = b.retrievals)
    (hphase : b'.phase = .idle)

theorem effect_register (b : Box P D) (task : ComputeId) :
    b.Effect (b.event (.register task)) (b.register task).box :=
  .quiet (b.completion_register task) (fun _ _ h => by cases h.1) (fun _ h => by cases h)
    (b.standing_register task) (by unfold register; split <;> rfl)
    (by unfold register; split <;> rfl)

theorem effect_unregister (b : Box P D) (h : Handle) :
    b.Effect (b.event (.unregister h)) (b.unregister h).box :=
  .quiet (b.completion_unregister h) (fun _ _ h => by cases h.1) (fun _ h => by cases h)
    (b.standing_unregister h) (by unfold unregister; split <;> rfl)
    (by unfold unregister; split <;> rfl)

theorem effect_publish (b : Box P D) (payload : P) :
    b.Effect (b.event (.publish payload)) (b.publish payload).box := by
  by_cases hphase : b.phase = .idle
  · by_cases hwaits : b.mode = .accumulate ∧ b.expected = 0
    · rw [event, perform, publish_of_unattended payload hphase hwaits.1 hwaits.2]
      exact .passes payload _ ⟨rfl, rfl⟩ rfl rfl rfl rfl
    · rw [event, perform, publish_of_idle payload hphase fun hm he => hwaits ⟨hm, he⟩]
      exact .opens payload rfl rfl
  · rw [event, perform, publish_of_busy payload hphase]
    exact .quiet rfl (fun _ _ h => by cases h.2) (fun _ h => by cases h) rfl rfl rfl

theorem effect_close (b : Box P D) : b.Effect (b.event .close) b.close.box := by
  by_cases hopen : b.mode = .read ∧ b.phase = .opened
  · rw [event, perform, close_of_opened hopen.1 hopen.2]
    exact .completes _ hopen.2 (fun _ h => by cases h) rfl rfl rfl rfl
  · obtain ⟨r, hr⟩ : ∃ r, b.close = b.refuse r := by
      cases hmode : b.mode with
      | accumulate => exact ⟨_, close_of_accumulate hmode⟩
      | read => exact ⟨_, close_of_not_opened hmode fun hphase => hopen ⟨hmode, hphase⟩⟩
    rw [event, perform, hr]
    exact .quiet rfl (fun _ _ h => by cases h.1) (fun _ h => by cases h) rfl rfl rfl

theorem effect_retrieve (b : Box P D) (h : Handle) :
    b.Effect (b.event (.retrieve h)) (b.retrieve h).box := by
  rcases b.retrieve_cases h with ⟨r, hr, -⟩ | ⟨payload, hphase, hpayload, hr⟩
  · rw [event, perform, hr]
    exact .quiet rfl (fun _ _ h => by cases h.1) (fun _ _ => ⟨r, rfl⟩) rfl rfl rfl
  · rw [event, perform, hr]
    exact .reads h payload hphase hpayload rfl rfl

theorem effect_deposit (b : Box P D) (check : ComputeId → P → D → Except Refusal Unit) (h : Handle)
    (value : D) :
    b.Effect (b.event (.deposit check h value)) (b.deposit check h value).box := by
  rw [event, perform]
  rcases b.deposit_cases check h value with ⟨r, hr, -⟩ | ⟨-, -, -, hphase, -, -, hr⟩
  · rw [hr]
    exact .quiet rfl (fun _ _ h => by cases h.1) (fun _ h => by cases h) rfl rfl rfl
  · rw [hr]
    rcases Nat.lt_trichotomy b.remaining 1 with hleft | hleft | hleft
    · rw [countDown_of_none (b := b.keep h b.cycle value) b.cycle (Nat.lt_one_iff.mp hleft)]
      exact .quiet rfl (fun _ _ h => by cases h.1) (fun _ h => by cases h) rfl rfl rfl
    · rw [countDown_of_last (b := b.keep h b.cycle value) b.cycle hleft]
      exact .completes _ hphase (fun _ h => by cases h) rfl rfl rfl rfl
    · rw [countDown_of_more (b := b.keep h b.cycle value) b.cycle hleft]
      exact .quiet rfl (fun _ _ h => by cases h.1) (fun _ h => by cases h) rfl rfl rfl

/-- **What one call does.** -/
theorem effect (b : Box P D) (c : Call P D) : b.Effect (b.event c) (b.perform c).box := by
  cases c with
  | register task => exact b.effect_register task
  | unregister h => exact b.effect_unregister h
  | publish payload => exact b.effect_publish payload
  | close => exact b.effect_close
  | retrieve h => exact b.effect_retrieve h
  | deposit check h value => exact b.effect_deposit check h value

/-- While a cycle is under way, the box holds its payload and counts its retrievals. -/
def Tells (es : List (Event P D)) (b : Box P D) : Prop :=
  b.phase = .opened →
    ∃ payload, b.payload = some payload ∧ UnderWay es b.cycle payload b.retrievals

/-- An event agrees with those before it: a retrieval hands out what the latest opening published,
while that cycle is under way, and a completion reports how many retrievals there were since. -/
def Faithful (es : List (Event P D)) (e : Event P D) : Prop :=
  (∀ h answer, e.call = .retrieve h → e.outcome = .ok answer →
    ∃ cycle payload k, answer = .payload payload ∧ UnderWay es cycle payload k) ∧
  ∀ done, e.completion = some done →
    (∃ payload, e.Opens done.cycle payload ∧ done.retrievals = 0) ∨
      ∃ payload, e.reads = false ∧ UnderWay es done.cycle payload done.retrievals

theorem Event.reads_of_ne (he : ∀ h, e.call ≠ .retrieve h) : e.reads = false := by
  unfold Event.reads
  split
  · next h _ hcall _ => exact absurd hcall (he h)
  · rfl

theorem Event.reads_of_error (he : ∀ h, e.call = .retrieve h → ∃ r, e.outcome = .error r) :
    e.reads = false := by
  unfold Event.reads
  split
  · next h _ hcall hok =>
    obtain ⟨r, hr⟩ := he h hcall
    cases hr.symm.trans hok
  · rfl

/-- **One call keeps the tally**, and what is seen of it agrees with it. -/
theorem Effect.tells (heffect : b.Effect e b') (hb : Tells es b) :
    Faithful es e ∧ Tells (es ++ [e]) b' := by
  cases heffect with
  | quiet hcompletion hopens hreads hstanding hpayload hretrievals =>
    refine ⟨⟨fun h answer hcall hok => ?_, fun done hdone => ?_⟩, fun hphase => ?_⟩
    · obtain ⟨r, hr⟩ := hreads h hcall
      cases hr.symm.trans hok
    · cases hcompletion.symm.trans hdone
    · have hphase' : b.phase = .opened := (congrArg Standing.phase hstanding).symm.trans hphase
      have hcycle : b'.cycle = b.cycle := congrArg Standing.cycle hstanding
      obtain ⟨payload, hheld, hway⟩ := hb hphase'
      refine ⟨payload, hpayload.trans hheld, ?_⟩
      have hmore := hway.concat hcompletion hopens
      rw [List.countP_singleton, Event.reads_of_error hreads] at hmore
      rw [hcycle, hretrievals]
      exact hmore
  | reads h payload hphase hpayload he hbox =>
    subst he hbox
    obtain ⟨held, hheld, hway⟩ := hb hphase
    obtain rfl : held = payload := Option.some.inj (hheld.symm.trans hpayload)
    refine ⟨⟨?_, nofun⟩, fun _ => ⟨held, hpayload, hway.concat rfl fun _ _ h => nomatch h.1⟩⟩
    rintro _ _ - hok
    exact ⟨_, held, _, (Except.ok.inj hok).symm, hway⟩
  | opens payload he hbox =>
    subst he hbox
    exact ⟨⟨nofun, nofun⟩, fun _ => ⟨payload, rfl, Event.Opens.underWay ⟨rfl, rfl⟩ rfl es⟩⟩
  | passes payload done hopens hcompletion hcycle hretrievals hphase =>
    refine ⟨⟨fun h _ hcall => ?_, fun done' hdone => .inl ⟨payload, ?_⟩⟩, fun hopened => ?_⟩
    · cases hopens.1.symm.trans hcall
    · obtain rfl := Option.some.inj (hcompletion.symm.trans hdone)
      exact ⟨hcycle ▸ hopens, hretrievals⟩
    · cases hphase.symm.trans hopened
  | completes done hopened hreads hcompletion hcycle hretrievals hphase =>
    refine ⟨⟨fun h _ hcall => ?_, fun done' hdone => .inr ?_⟩, fun hopened => ?_⟩
    · exact absurd hcall (hreads h)
    · obtain rfl := Option.some.inj (hcompletion.symm.trans hdone)
      obtain ⟨payload, -, hway⟩ := hb hopened
      exact ⟨payload, Event.reads_of_ne hreads, hcycle ▸ hretrievals ▸ hway⟩
    · cases hphase.symm.trans hopened

/-- A run of calls keeps the tally. -/
theorem Tells.after (hb : Tells es b) (calls : List (Call P D)) :
    Tells (es ++ b.history calls) (b.after calls) := by
  induction calls generalizing b es with
  | nil => rwa [history_nil, List.append_nil]
  | cons c calls ih =>
    have hrest := ih ((b.effect c).tells hb).2
    rwa [List.append_assoc] at hrest

/-- **Every event of a run agrees with those before it.** -/
theorem faithful_history (serial : Nat) (label : BoxLabel) (mode : BoxMode)
    (calls : List (Call P D)) {early late : List (Event P D)}
    (hsplit : (new serial label mode).history calls = early ++ e :: late) : Faithful early e := by
  obtain ⟨first, c, rest, -, hearly, he, -⟩ := history_eq_append_cons hsplit
  have htells : Tells ([] : List (Event P D)) (new serial label mode : Box P D) := nofun
  have hfirst := htells.after first
  rw [List.nil_append, hearly] at hfirst
  rw [← he]
  exact (((new serial label mode).after first).effect c |>.tells hfirst).1

/-! ## Two runs -/

/-- The box without its count of retrievals. -/
def unread (b : Box P D) : Box P D := { b with retrievals := 0 }

theorem phase_congr (hb : b.unread = b'.unread) : b.phase = b'.phase :=
  show b.unread.phase = b'.unread.phase by rw [hb]

theorem cycle_congr (hb : b.unread = b'.unread) : b.cycle = b'.cycle :=
  show b.unread.cycle = b'.unread.cycle by rw [hb]

/-- The moment without the number of retrievals. -/
def Moment.unread : Moment D → Moment D
  | .opening phase cycle => .opening phase cycle
  | .opened outcome phase cycle => .opened outcome phase cycle
  | .heard c phase cycle => .heard c.unread phase cycle

/-- Replies that differ in the number of retrievals only. -/
structure Alike {α : Type} (reply reply' : Reply P D α) : Prop where
  /-- what the caller gets -/
  outcome : reply.outcome = reply'.outcome
  /-- what the owner hears -/
  completion : reply.completion.map Completion.unread = reply'.completion.map Completion.unread
  /-- the box -/
  box : reply.box.unread = reply'.box.unread

theorem Alike.map {α β : Type} {reply reply' : Reply P D α} (h : Alike reply reply') (f : α → β) :
    Alike (reply.map f) (reply'.map f) :=
  ⟨congrArg (Except.map f) h.outcome, h.completion, h.box⟩

theorem alike_refuse {α : Type} (b : Box P D) (r : Refusal) :
    Alike (b.unread.refuse r : Reply P D α) (b.refuse r) := ⟨rfl, rfl, rfl⟩

theorem alike_register (b : Box P D) (task : ComputeId) :
    Alike (b.unread.register task) (b.register task) := by
  by_cases hmem : task ∈ b.tasks
  · rw [register_of_mem hmem, register_of_mem (b := b.unread) hmem]
    exact alike_refuse b _
  · rw [register, register, if_neg hmem, if_neg (show task ∉ b.unread.tasks from hmem)]
    exact ⟨rfl, rfl, rfl⟩

theorem alike_unregister (b : Box P D) (h : Handle) :
    Alike (b.unread.unregister h) (b.unregister h) := by
  have hlive : b.unread.live? h = b.live? h := rfl
  rw [unregister, unregister, hlive]
  cases b.live? h with
  | none => exact alike_refuse b _
  | some => exact ⟨rfl, rfl, rfl⟩

/-- An opening does not look at the count at all, and what it completes has none. -/
theorem publish_unread (b : Box P D) (payload : P) :
    (b.unread.publish payload).outcome = (b.publish payload).outcome ∧
      (b.unread.publish payload).completion = (b.publish payload).completion ∧
      (b.unread.publish payload).box.unread = (b.publish payload).box.unread := by
  by_cases hphase : b.phase = .idle
  · by_cases hwaits : b.mode = .accumulate ∧ b.expected = 0
    · rw [publish_of_unattended payload hphase hwaits.1 hwaits.2,
        publish_of_unattended (b := b.unread) payload hphase hwaits.1 hwaits.2]
      exact ⟨rfl, rfl, rfl⟩
    · have hwaits : b.mode = .accumulate → b.expected ≠ 0 := fun hm he => hwaits ⟨hm, he⟩
      rw [publish_of_idle payload hphase hwaits,
        publish_of_idle (b := b.unread) payload hphase hwaits]
      exact ⟨rfl, rfl, rfl⟩
  · rw [publish_of_busy payload hphase, publish_of_busy (b := b.unread) payload hphase]
    exact ⟨rfl, rfl, rfl⟩

theorem alike_publish (b : Box P D) (payload : P) :
    Alike (b.unread.publish payload) (b.publish payload) := by
  obtain ⟨houtcome, hcompletion, hbox⟩ := b.publish_unread payload
  exact ⟨houtcome, congrArg _ hcompletion, hbox⟩

theorem alike_close (b : Box P D) : Alike b.unread.close b.close := by
  cases hmode : b.mode with
  | accumulate =>
    rw [close_of_accumulate hmode, close_of_accumulate (b := b.unread) hmode]
    exact alike_refuse b _
  | read =>
    by_cases hphase : b.phase = .opened
    · rw [close_of_opened hmode hphase, close_of_opened (b := b.unread) hmode hphase]
      exact ⟨rfl, rfl, rfl⟩
    · rw [close_of_not_opened hmode hphase, close_of_not_opened (b := b.unread) hmode hphase]
      exact alike_refuse b _

/-- **A retrieval changes the count only.** -/
theorem retrieve_unread (b : Box P D) (h : Handle) : (b.retrieve h).box.unread = b.unread := by
  rcases b.retrieve_cases h with ⟨r, hr, -⟩ | ⟨payload, -, -, hr⟩ <;> rw [hr] <;> rfl

theorem alike_retrieve (b : Box P D) (h : Handle) :
    Alike (b.unread.retrieve h) (b.retrieve h) := by
  refine ⟨?_, ?_, (b.unread.retrieve_unread h).trans (b.retrieve_unread h).symm⟩
  · unfold retrieve
    rw [show b.unread.live? h = b.live? h from rfl]
    cases b.live? h with
    | none => rfl
    | some =>
      by_cases hphase : b.phase = .opened
      · simp only [hphase, unread, ne_eq, not_true_eq_false, if_false]
        cases b.payload <;> rfl
      · simp only [hphase, unread, ne_eq, not_false_eq_true, if_true]
        rfl
  · rw [completion_retrieve, completion_retrieve]

theorem alike_countDown (b : Box P D) (cycle : Nat) :
    Alike (b.unread.countDown cycle) (b.countDown cycle) := by
  rcases Nat.lt_trichotomy b.remaining 1 with hleft | hleft | hleft
  · have hleft := Nat.lt_one_iff.mp hleft
    rw [countDown_of_none cycle hleft, countDown_of_none (b := b.unread) cycle hleft]
    exact alike_refuse b _
  · rw [countDown_of_last cycle hleft, countDown_of_last (b := b.unread) cycle hleft]
    exact ⟨rfl, rfl, rfl⟩
  · rw [countDown_of_more cycle hleft, countDown_of_more (b := b.unread) cycle hleft]
    exact ⟨rfl, rfl, rfl⟩

theorem alike_deposit (b : Box P D) (check : ComputeId → P → D → Except Refusal Unit) (h : Handle)
    (value : D) : Alike (b.unread.deposit check h value) (b.deposit check h value) := by
  have hadm : b.unread.admission h = b.admission h := rfl
  have hjudge : b.unread.judge check h.task value = b.judge check h.task value := rfl
  rw [deposit, deposit, hadm, hjudge]
  cases b.admission h with
  | error r => exact alike_refuse b r
  | ok cycle =>
    cases b.judge check h.task value with
    | error r => exact alike_refuse b r
    | ok =>
      dsimp only
      rw [settle, settle, show b.unread.live? h = b.live? h from rfl]
      cases b.live? h with
      | none => exact alike_refuse b _
      | some r =>
        by_cases hspent : r.lastCycle = cycle
        · dsimp only
          rw [if_pos hspent, if_pos hspent]
          exact alike_refuse b _
        · dsimp only
          rw [if_neg hspent, if_neg hspent]
          exact alike_countDown (b.keep h cycle value) cycle

/-- **No call looks at the count** but to report it. -/
theorem alike_perform (b : Box P D) (c : Call P D) : Alike (b.unread.perform c) (b.perform c) := by
  cases c with
  | register task => exact (alike_register b task).map _
  | unregister h => exact (alike_unregister b h).map _
  | publish payload => exact (alike_publish b payload).map _
  | close => exact (alike_close b).map _
  | retrieve h => exact (alike_retrieve b h).map _
  | deposit check h value => exact (alike_deposit b check h value).map _

/-! ## Owners that do not look at the count -/

/-- The owner reacts to completions alike, whatever number of retrievals they report. -/
def Turn.Blind (t : Turn P D) : Prop :=
  ∀ c retrievals, t.owner { c with retrievals } = t.owner c

/-- What is seen of a turn, numbers of retrievals apart: what the caller gets, the moments of the
owner, and the box afterwards with phase, cycle, deposits to come and registrations. -/
structure Glimpse (P D : Type) where
  /-- what the caller gets -/
  outcome : Except Refusal (Answer P)
  /-- openings, their returns, and completions -/
  moments : List (Moment D)
  /-- the box afterwards -/
  box : Box P D

/-- What is seen of a turn on this box. -/
def glimpse (b : Box P D) (t : Turn P D) : Glimpse P D :=
  ⟨(b.perform t.call).outcome, (b.turn t).1.map Moment.unread, (b.turn t).2.unread⟩

/-- What is seen of each turn of a run. -/
def glimpses : Box P D → List (Turn P D) → List (Glimpse P D) :=
  trace (fun b t => (b.turn t).2) glimpse

/-- The entries of a list that are marked to be kept. -/
def kept {α : Type} (entries : List (α × Bool)) : List α := (entries.filter Prod.snd).map Prod.fst

/-- Openings of boxes that differ in the count reply the same, the count apart. -/
theorem publish_congr (hb : b.unread = b'.unread) (payload : P) :
    (b.publish payload).outcome = (b'.publish payload).outcome ∧
      (b.publish payload).completion = (b'.publish payload).completion ∧
      (b.publish payload).box.unread = (b'.publish payload).box.unread := by
  obtain ⟨houtcome, hcompletion, hbox⟩ := b.publish_unread payload
  obtain ⟨houtcome', hcompletion', hbox'⟩ := b'.publish_unread payload
  rw [← houtcome, ← hcompletion, ← hbox, hb]
  exact ⟨houtcome', hcompletion', hbox'⟩

theorem perform_congr (hb : b.unread = b'.unread) (c : Call P D) :
    Alike (b.perform c) (b'.perform c) := by
  have hleft := b.alike_perform c
  have hright := b'.alike_perform c
  rw [hb] at hleft
  exact ⟨hleft.outcome.symm.trans hright.outcome, hleft.completion.symm.trans hright.completion,
    hleft.box.symm.trans hright.box⟩

/-- **A reaction never sees the count**: what it may complete while it runs was never read. -/
theorem react_congr (reaction : Reaction P D) {b b' : Box P D} (hb : b.unread = b'.unread) :
    (react reaction b).1 = (react reaction b').1 ∧
      (react reaction b).2.unread = (react reaction b').2.unread := by
  induction reaction generalizing b b' with
  | rest => exact ⟨rfl, hb⟩
  | reopen payload inner next ih_inner ih_next =>
    obtain ⟨houtcome, hcompletion, hbox⟩ := publish_congr hb payload
    obtain ⟨hduring, hafter⟩ :
        (heed (fun c => react (inner c)) (b.publish payload)).1 =
            (heed (fun c => react (inner c)) (b'.publish payload)).1 ∧
          (heed (fun c => react (inner c)) (b.publish payload)).2.unread =
            (heed (fun c => react (inner c)) (b'.publish payload)).2.unread := by
      rw [heed, heed, hcompletion]
      cases (b'.publish payload).completion with
      | none => exact ⟨rfl, hbox⟩
      | some c =>
        obtain ⟨hmoments, hends⟩ := ih_inner c hbox
        refine ⟨?_, hends⟩
        dsimp only
        rw [phase_congr hbox, cycle_congr hbox, hmoments]
    obtain ⟨hlater, hends⟩ := ih_next (b'.publish payload).outcome hafter
    rw [react, react, houtcome]
    dsimp only
    rw [phase_congr hb, cycle_congr hb, phase_congr hafter, cycle_congr hafter, hduring, hlater]
    exact ⟨rfl, hends⟩

/-- An owner that does not look at the count answers alike replies alike. -/
theorem heed_congr {α : Type} {t : Turn P D} (ht : t.Blind) {reply reply' : Reply P D α}
    (hreply : Alike reply reply') :
    (heed (fun c => react (t.owner c)) reply).1.map Moment.unread =
        (heed (fun c => react (t.owner c)) reply').1.map Moment.unread ∧
      (heed (fun c => react (t.owner c)) reply).2.unread =
        (heed (fun c => react (t.owner c)) reply').2.unread := by
  have hcompletion := hreply.completion
  rw [heed, heed]
  cases hdone : reply.completion with
  | none =>
    rw [hdone, Option.map_none] at hcompletion
    rw [Option.map_eq_none_iff.mp hcompletion.symm]
    exact ⟨rfl, hreply.box⟩
  | some c =>
    rw [hdone, Option.map_some] at hcompletion
    obtain ⟨c', hdone', hc⟩ := Option.map_eq_some_iff.mp hcompletion.symm
    rw [hdone']
    have howner : t.owner c = t.owner c' :=
      (ht c 0).symm.trans ((congrArg t.owner hc).symm.trans (ht c' 0))
    obtain ⟨hmoments, hends⟩ := react_congr (t.owner c') hreply.box
    dsimp only
    rw [howner]
    refine ⟨?_, hends⟩
    rw [List.map_cons, List.map_cons, Moment.unread, Moment.unread, ← hc, phase_congr hreply.box,
      cycle_congr hreply.box, hmoments]

/-- **A turn on boxes that differ in the count looks the same.** -/
theorem glimpse_congr (hb : b.unread = b'.unread) {t : Turn P D} (ht : t.Blind) :
    b.glimpse t = b'.glimpse t := by
  obtain ⟨hmoments, hends⟩ : (b.turn t).1.map Moment.unread = (b'.turn t).1.map Moment.unread ∧
      (b.turn t).2.unread = (b'.turn t).2.unread := by
    obtain ⟨call, owner⟩ := t
    cases call with
    | publish payload =>
      obtain ⟨hmoments, hends⟩ := react_congr (.reopen payload owner fun _ => .rest) hb
      exact ⟨congrArg _ hmoments, hends⟩
    | _ => exact heed_congr ht (perform_congr hb _)
  rw [glimpse, glimpse, (perform_congr hb t.call).outcome, hmoments, hends]

/-- A retrieval from outside changes the count only. -/
theorem turn_of_retrieve (b : Box P D) {t : Turn P D} {h : Handle} (ht : t.call = .retrieve h) :
    (b.turn t).2.unread = b.unread := by
  obtain ⟨call, owner⟩ := t
  obtain rfl : call = .retrieve h := ht
  have hnone : (b.perform (.retrieve h)).completion = none := b.completion_retrieve h
  have hturn : b.turn ⟨.retrieve h, owner⟩ =
      heed (fun c => react (owner c)) (b.perform (.retrieve h)) := rfl
  rw [hturn, heed, hnone]
  exact b.retrieve_unread h

/-- **Retrievals can be left out of a run**: the other turns look as they did. -/
theorem glimpses_kept {marked : List (Turn P D × Bool)} (hblind : ∀ m ∈ marked, m.1.Blind)
    (hread : ∀ m ∈ marked, m.2 = false → ∃ h, m.1.call = .retrieve h)
    (hb : b.unread = b'.unread) :
    b.glimpses (kept marked) =
      kept ((b'.glimpses (marked.map Prod.fst)).zip (marked.map Prod.snd)) := by
  induction marked generalizing b b' with
  | nil => rfl
  | cons m marked ih =>
    obtain ⟨t, stays⟩ := m
    rw [List.forall_mem_cons] at hblind hread
    have hglimpse := glimpse_congr hb hblind.1
    cases stays with
    | true =>
      have hrest := ih hblind.2 hread.2 (congrArg Glimpse.box hglimpse)
      exact congr (congrArg List.cons hglimpse) hrest
    | false =>
      obtain ⟨h, hcall⟩ := hread.1 rfl
      exact ih hblind.2 hread.2 (hb.trans (b'.turn_of_retrieve hcall).symm)

/-- **Retrieval is an observation.** Take a box of either mode and any run of calls on it, with an
owner that may open the box again whenever it hears of a completion, but does not look at the number
of retrievals. What it does may differ from turn to turn, as that of an owner with a memory.

* Every successful retrieval, with whatever handle, hands out what the latest opening published, and
  the cycle of that opening is still under way.
* Every completion reports the number of successful retrievals since the opening of its cycle.
* Whatever retrievals are left out of the run, all other calls have the same outcomes, the owner
  opens and hears the same, and the box stands the same after each of them, numbers of retrievals
  apart. -/
theorem retrieval_observes (serial : Nat) (label : BoxLabel) (mode : BoxMode)
    (marked : List (Turn P D × Bool)) (hblind : ∀ m ∈ marked, m.1.Blind)
    (hread : ∀ m ∈ marked, m.2 = false → ∃ h, m.1.call = .retrieve h) :
    let b : Box P D := new serial label mode
    let turns := marked.map Prod.fst
    (∀ early e late, b.record turns = early ++ e :: late → Faithful early e) ∧
    completions (b.moments turns) = (b.record turns).filterMap Event.completion ∧
    b.glimpses (kept marked) = kept ((b.glimpses turns).zip (marked.map Prod.snd)) := by
  intro b turns
  refine ⟨fun early e late hsplit => ?_, (b.makes_turns turns).hears, ?_⟩
  · exact faithful_history serial label mode _ hsplit
  · exact glimpses_kept hblind hread rfl

/-- One compute reads twice and deposits, and the owner opens the next cycle when it hears of that;
then the compute reads again. The second retrieval of each cycle is marked to be left out. -/
def rereading : List (Turn Nat Unit × Bool) :=
  let h : Handle := ⟨0, ⟨7⟩, 1⟩
  let idle : Completion Unit → Reaction Nat Unit := fun _ => .rest
  let reopens : Completion Unit → Reaction Nat Unit := standingOrders (fun _ => 6) 1
  [(⟨.register ⟨7⟩, idle⟩, true), (⟨.publish 5, idle⟩, true), (⟨.retrieve h, idle⟩, true),
    (⟨.retrieve h, idle⟩, false), (⟨.deposit acceptAll h (), reopens⟩, true),
    (⟨.retrieve h, idle⟩, true), (⟨.retrieve h, idle⟩, false)]

/-- Left out of the run, the second retrieval of the first cycle is missing in the completion, and
nothing else differs. -/
theorem retrieval_observes_rereading :
    let b : Box Nat Unit := new 0 ⟨⟨0⟩, .force⟩ .accumulate
    let turns := rereading.map Prod.fst
    (∀ m ∈ rereading, m.1.Blind) ∧
    (∀ m ∈ rereading, m.2 = false → ∃ h, m.1.call = .retrieve h) ∧
    (completions (b.moments turns)).map Completion.retrievals = [2] ∧
    (completions (b.moments (kept rereading))).map Completion.retrievals = [1] ∧
    b.glimpses (kept rereading) = kept ((b.glimpses turns).zip (rereading.map Prod.snd)) := by
  intro b turns
  have hblind : ∀ m ∈ rereading, m.1.Blind := by
    simp only [rereading, List.forall_mem_cons, List.not_mem_nil, false_implies, implies_true,
      and_true]
    exact ⟨fun _ _ => rfl, fun _ _ => rfl, fun _ _ => rfl, fun _ _ => rfl, fun _ _ => rfl,
      fun _ _ => rfl, fun _ _ => rfl⟩
  have hread : ∀ m ∈ rereading, m.2 = false → ∃ h, m.1.call = .retrieve h := by
    simp [rereading]
  refine ⟨hblind, hread, by decide +kernel, by decide +kernel, ?_⟩
  exact (retrieval_observes 0 ⟨⟨0⟩, .force⟩ .accumulate rereading hblind hread).2.2

end Box

end PatchDynamics
