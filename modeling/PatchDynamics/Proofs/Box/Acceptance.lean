import PatchDynamics.Proofs.Box.Custody
import PatchDynamics.Proofs.Box.Race

/-!
# What a box accepts

Whether a call is accepted can be told from outside: from where the box stands, and from what was
seen of the calls before. A stamp tells a box whether a handle is spent, and an opening wipes out
all stamps at once by counting one more cycle.

* `Spent`, `published` — by what was seen, who has deposited in the latest cycle, and its payload;
* `Objection`, `objections` — what can be said against a call, first things first;
* `Ruling` — the first objection raised refuses the call and nothing changes, or the call is
  accepted;
* `Stamped`, `Agrees` — the invariant: the box knows of itself what was seen of it.

The main statement is `acceptance_exact`.
-/

namespace PatchDynamics

namespace Box

variable {P D : Type}

/-! ## Reading the history -/

/-- The payload, if the event starts a cycle. -/
def Event.payload? (e : Event P D) : Option P :=
  match e.call, e.outcome with
  | .publish payload, .ok _ => some payload
  | _, _ => none

/-- The handle has deposited in the latest cycle. -/
def Spent (seen : List (Event P D)) (h : Handle) : Prop :=
  Since (fun e => ∃ value, e.deposit? = some (h, value)) (fun e => ¬ e.opens) seen

/-- The payload of the latest cycle. -/
def published (seen : List (Event P D)) : Option P := (seen.filterMap Event.payload?).getLast?

section Reading

variable {seen : List (Event P D)} {e : Event P D} {g h : Handle}

/-- No event is a deposit and an opening. -/
theorem Event.deposit?_of_opens (hopens : e.opens) : e.deposit? = none := by
  obtain ⟨call, outcome, completion⟩ := e
  cases call <;> cases outcome <;> first | rfl | cases hopens

/-- Nobody has deposited in a cycle that has just been started. -/
theorem not_spent_of_opens (hopens : e.opens) : ¬ Spent (seen ++ [e]) h := by
  rw [Spent, since_concat, Event.deposit?_of_opens hopens]
  simp [hopens]

/-- One more deposit spends its handle and no other. -/
theorem spent_of_deposit {value : D} (hd : e.deposit? = some (g, value)) :
    Spent (seen ++ [e]) h ↔ h = g ∨ Spent seen h := by
  have hopens : ¬ e.opens := by
    intro hopens
    rw [Event.deposit?_of_opens hopens] at hd
    cases hd
  rw [Spent, since_concat, hd, ← Spent, and_iff_left hopens]
  simp [eq_comm]

/-- Other events spend no handle. -/
theorem spent_of_quiet (hopens : e.opens = false) (hd : e.deposit? = none) :
    Spent (seen ++ [e]) h ↔ Spent seen h := by
  rw [Spent, since_concat, hd, ← Spent]
  simp [hopens]

theorem published_concat : published (seen ++ [e]) = e.payload?.or (published seen) := by
  rw [published, List.filterMap_append]
  cases he : e.payload? <;> simp [published, he]

end Reading

/-! ## Objections -/

/-- Something that can be said against a call. -/
structure Objection where
  /-- what the caller gets if this decides -/
  refusal : Refusal
  /-- whether it applies -/
  raised : Prop

/-- The refusal that the first objection raised brings. -/
def FirstRaised (against : List Objection) (r : Refusal) : Prop :=
  ∃ early o late, against = early ++ o :: late ∧ (∀ x ∈ early, ¬ x.raised) ∧
    o.raised ∧ o.refusal = r

/-- What the owner's check says against a value. -/
def verdict (payload : Option P) (check : ComputeId → P → D → Except Refusal Unit)
    (task : ComputeId) (value : D) : List Objection :=
  match payload.map (check task · value) with
  | some (.error r) => [⟨r, True⟩]
  | _ => []

/-- What can be said against a deposit through a handle, whatever its value. -/
def barring (s : Standing) (seen : List (Event P D)) (h : Handle) : List Objection :=
  [⟨.unknownHandle s.label h.task, h ∉ handlesOut seen⟩,
   ⟨.wrongMode s.label h.task, s.mode = .read⟩,
   ⟨.doubleUse s.label h.task s.cycle, Spent seen h⟩,
   ⟨.notOpen s.label, s.phase ≠ .opened⟩]

/-- What can be said against a call on a box that stands there, after what was seen. -/
def objections (s : Standing) (seen : List (Event P D)) : Call P D → List Objection
  | .register task =>
    [⟨.alreadyRegistered s.label task, task ∈ (handlesOut seen).map Handle.task⟩]
  | .unregister h => [⟨.unknownHandle s.label h.task, h ∉ handlesOut seen⟩]
  | .publish _ => [⟨.alreadyOpen s.label s.cycle, s.phase ≠ .idle⟩]
  | .close =>
    [⟨.closedByDeposits s.label, s.mode = .accumulate⟩, ⟨.notOpen s.label, s.phase ≠ .opened⟩]
  | .retrieve h =>
    [⟨.unknownHandle s.label h.task, h ∉ handlesOut seen⟩, ⟨.notOpen s.label, s.phase ≠ .opened⟩]
  | .deposit check h value => barring s seen h ++ verdict (published seen) check h.task value

theorem not_firstRaised_nil {r : Refusal} : ¬ FirstRaised [] r := by
  rintro ⟨early, o, late, hsplit, -⟩
  exact List.append_ne_nil_of_right_ne_nil _ (List.cons_ne_nil _ _) hsplit.symm

/-- The first objection decides if it is raised, and otherwise the others do. -/
theorem firstRaised_cons {o : Objection} {rest : List Objection} {r : Refusal} :
    FirstRaised (o :: rest) r ↔ o.raised ∧ o.refusal = r ∨ ¬ o.raised ∧ FirstRaised rest r := by
  constructor
  · rintro ⟨early, x, late, hsplit, hearly, hx, hr⟩
    cases early with
    | nil =>
      obtain ⟨rfl, rfl⟩ := List.cons.inj hsplit
      exact .inl ⟨hx, hr⟩
    | cons y early =>
      obtain ⟨rfl, rfl⟩ := List.cons.inj hsplit
      rw [List.forall_mem_cons] at hearly
      exact .inr ⟨hearly.1, early, x, late, rfl, hearly.2, hx, hr⟩
  · rintro (⟨ho, hr⟩ | ⟨ho, early, x, late, rfl, hearly, hx, hr⟩)
    · exact ⟨[], o, rest, rfl, nofun, ho, hr⟩
    · exact ⟨o :: early, x, late, rfl, List.forall_mem_cons.mpr ⟨ho, hearly⟩, hx, hr⟩

/-! ## Rulings -/

variable {b : Box P D} {seen : List (Event P D)}

/-- What comes of a call on a box, given what can be said against it. -/
inductive Ruling {α : Type} (b : Box P D) : List Objection → Reply P D α → Prop where
  /-- nothing is said against it -/
  | accepted {reply : Reply P D α} {a : α} (hok : reply.outcome = .ok a) : Ruling b [] reply
  /-- the first objection is raised -/
  | refused {o : Objection} {rest : List Objection} (hraised : o.raised) :
      Ruling b (o :: rest) (b.refuse o.refusal)
  /-- the first objection is not raised -/
  | passed {o : Objection} {rest : List Objection} {reply : Reply P D α} (hnot : ¬ o.raised)
      (hrest : Ruling b rest reply) : Ruling b (o :: rest) reply

namespace Ruling

variable {α β : Type} {against : List Objection} {reply : Reply P D α}

theorem map (h : Ruling b against reply) (f : α → β) : Ruling b against (reply.map f) := by
  induction h with
  | accepted hok => exact .accepted (by rw [Reply.map, hok]; rfl)
  | refused hraised => exact .refused hraised
  | passed hnot _ ih => exact .passed hnot ih

/-- A call is accepted exactly if no objection is raised. -/
theorem ok_iff (h : Ruling b against reply) :
    (∃ a, reply.outcome = .ok a) ↔ ∀ o ∈ against, ¬ o.raised := by
  induction h with
  | accepted hok => exact ⟨fun _ => nofun, fun _ => ⟨_, hok⟩⟩
  | refused hraised =>
    rw [List.forall_mem_cons]
    exact ⟨nofun, fun hnone => absurd hraised hnone.1⟩
  | passed hnot _ ih =>
    rw [List.forall_mem_cons, ih]
    exact ⟨fun hrest => ⟨hnot, hrest⟩, And.right⟩

/-- A call is refused exactly with the first objection raised. -/
theorem error_iff (h : Ruling b against reply) {r : Refusal} :
    reply.outcome = .error r ↔ FirstRaised against r := by
  induction h with
  | accepted hok => simp [hok, not_firstRaised_nil]
  | refused hraised => simp [refuse, firstRaised_cons, hraised]
  | passed hnot _ ih => rw [firstRaised_cons, ih]; simp [hnot]

/-- A call that is refused changes nothing, and nobody hears of it. -/
theorem unchanged (h : Ruling b against reply) {r : Refusal} (he : reply.outcome = .error r) :
    reply.box = b ∧ reply.completion = none := by
  induction h with
  | accepted hok =>
    rw [hok] at he
    cases he
  | refused => exact ⟨rfl, rfl⟩
  | passed _ _ ih => exact ih he

end Ruling

/-! ## The invariant -/

/-- The stamps of an accumulate box tell which handles are spent. -/
structure Stamped (b : Box P D) (seen : List (Event P D)) : Prop where
  /-- a handle is stamped with the latest cycle if it is spent; the cycle counter starts at the
  stamp of a new handle, which is not spent -/
  stamps : ∀ r ∈ b.registrations, b.cycle ≠ 0 ∧ r.lastCycle = b.cycle ↔ Spent seen (b.handle r)
  /-- handles to be issued are not spent -/
  issued : ∀ h, Spent seen h → h.token < b.nextToken

/-- A box knows of itself what was seen of it. -/
structure Agrees (b : Box P D) (seen : List (Event P D)) : Prop where
  /-- it is in order -/
  orderly : b.Orderly
  /-- the handles that are out -/
  handles : handlesOut seen = b.handles
  /-- the payload of the latest cycle -/
  payload : b.payload = published seen
  /-- which handles are spent, if there are deposits -/
  stamped : b.mode = .accumulate → b.Stamped seen
  /-- none is, if there are not -/
  unspent : b.mode = .read → ∀ h, ¬ Spent seen h

theorem agrees_new (serial : Nat) (label : BoxLabel) (mode : BoxMode) :
    (new serial label mode : Box P D).Agrees [] where
  orderly := orderly_new serial label mode
  handles := rfl
  payload := rfl
  stamped := fun _ => ⟨nofun, fun _ hspent => absurd hspent not_since_nil⟩
  unspent := fun _ _ => not_since_nil

/-- A call that starts no cycle leaves the cycle counter. -/
theorem cycle_perform {c : Call P D} (hopens : ¬ (b.event c).opens) :
    (b.perform c).box.cycle = b.cycle := by
  by_cases hc : ∃ payload, c = .publish payload
  · obtain ⟨payload, rfl⟩ := hc
    rw [perform, publish_of_busy payload fun hphase => hopens (opens_of_idle hphase payload)]
    rfl
  · rcases b.perform_standing (not_exists.mp hc) with ⟨-, hs⟩ | ⟨_, -, -, -, hs⟩
    · exact congrArg Standing.cycle hs
    · exact congrArg Standing.cycle hs

/-- So does a run of such calls. -/
theorem cycle_after {calls : List (Call P D)} (hopens : ∀ e ∈ b.history calls, ¬ e.opens) :
    (b.after calls).cycle = b.cycle := by
  induction calls generalizing b with
  | nil => rfl
  | cons c calls ih =>
    rw [history_cons, List.forall_mem_cons] at hopens
    rw [after_cons, ih hopens.2, cycle_perform hopens.1]

/-- Only an opening replaces the payload. -/
theorem payload_perform (b : Box P D) (c : Call P D) :
    (b.perform c).box.payload = (b.event c).payload?.or b.payload := by
  cases c with
  | register task =>
    change (b.register task).box.payload = b.payload
    unfold register
    split <;> rfl
  | unregister h =>
    change (b.unregister h).box.payload = b.payload
    unfold unregister
    split <;> rfl
  | publish payload =>
    by_cases hphase : b.phase = .idle
    · by_cases hwaits : b.mode = .accumulate ∧ b.expected = 0
      · rw [event, perform, publish_of_unattended payload hphase hwaits.1 hwaits.2]
        rfl
      · rw [event, perform, publish_of_idle payload hphase fun hm he => hwaits ⟨hm, he⟩]
        rfl
    · rw [event, perform, publish_of_busy payload hphase]
      rfl
  | close =>
    change b.close.box.payload = b.payload
    unfold close
    split
    · rfl
    · split <;> rfl
  | retrieve h =>
    change (b.retrieve h).box.payload = b.payload
    rcases b.retrieve_cases h with ⟨_, hr, -⟩ | ⟨_, -, -, hr⟩ <;> simp [hr, refuse]
  | deposit check h value =>
    change (b.deposit check h value).box.payload = b.payload
    rcases b.deposit_cases check h value with ⟨r, hr, -⟩ | ⟨r, -, -, -, -, -, hr⟩
    · rw [hr]
      rfl
    · rw [hr]
      unfold countDown
      split <;> rfl

namespace Stamped

variable {e : Event P D}

/-- Nothing is spent anew, and no registration is added. -/
theorem fewer (hs : b.Stamped seen) {b' : Box P D} (hmint : b'.mint = b.mint)
    (hcycle : b'.cycle = b.cycle) (hsub : b'.registrations ⊆ b.registrations)
    (hopens : e.opens = false) (hd : e.deposit? = none) : b'.Stamped (seen ++ [e]) := by
  obtain ⟨hserial, htoken⟩ := Prod.mk.inj hmint
  refine ⟨fun r hr => ?_, fun h hh => ?_⟩
  · rw [spent_of_quiet hopens hd, hcycle, handle, hserial]
    exact hs.stamps r (hsub hr)
  · rw [spent_of_quiet hopens hd] at hh
    exact htoken ▸ hs.issued h hh

/-- A call that is refused spends nothing. -/
theorem refused (hs : b.Stamped seen) (hopens : e.opens = false) (hd : e.deposit? = none) :
    b.Stamped (seen ++ [e]) :=
  hs.fewer rfl rfl (List.Subset.refl _) hopens hd

theorem register (hs : b.Stamped seen) (task : ComputeId) :
    (b.register task).box.Stamped (seen ++ [b.event (.register task)]) := by
  have hopens : (b.event (.register task)).opens = false := rfl
  unfold Box.register
  split
  · exact hs.refused hopens rfl
  · refine ⟨fun r hr => ?_, fun h hh => ?_⟩
    · rw [spent_of_quiet hopens rfl]
      rcases List.mem_append.mp hr with hr | hr
      · exact hs.stamps r hr
      · -- the token of the new handle is larger than that of any handle that is spent
        obtain rfl := List.mem_singleton.mp hr
        refine ⟨fun hstamp => absurd hstamp.2.symm hstamp.1, fun hspent => ?_⟩
        exact absurd (hs.issued _ hspent) (Nat.lt_irrefl _)
    · rw [spent_of_quiet hopens rfl] at hh
      exact Nat.lt_succ_of_lt (hs.issued h hh)

/-- An opening leaves all stamps behind. -/
theorem publish (hs : b.Stamped seen) (hb : b.Orderly) (payload : P) :
    (b.publish payload).box.Stamped (seen ++ [b.event (.publish payload)]) := by
  by_cases hphase : b.phase = .idle
  · have hopens := opens_of_idle hphase payload
    have hsame := b.sameStamps_publish payload
    obtain ⟨-, hcycle⟩ := publish_next hphase payload
    refine ⟨fun s hr => iff_of_false ?_ (not_spent_of_opens hopens),
      fun h hh => absurd hh (not_spent_of_opens hopens)⟩
    obtain ⟨r, hr, -, hstamp⟩ := hsame.stamps s hr
    have hle := hb.spent r hr
    rw [hstamp, hcycle]
    omega
  · have hevent : b.event (.publish payload) =
        ⟨.publish payload, .error (.alreadyOpen b.label b.cycle), none⟩ := by
      rw [event, Box.perform, publish_of_busy payload hphase]
      rfl
    rw [hevent, publish_of_busy payload hphase]
    exact hs.refused rfl rfl

/-- A deposit that is accepted stamps its handle and no other. -/
theorem deposit (hs : b.Stamped seen) (hb : b.Orderly)
    (check : ComputeId → P → D → Except Refusal Unit) (h : Handle) (value : D) :
    (b.deposit check h value).box.Stamped (seen ++ [b.event (.deposit check h value)]) := by
  rcases b.deposit_cases check h value with ⟨r, hr, -⟩ | ⟨reg, live, hmode, hphase, -, -, hr⟩
  · rw [event, Box.perform, hr]
    exact hs.refused rfl rfl
  · have hleft : 0 < (b.keep h b.cycle value).remaining := (hb.awaiting hmode).mp hphase
    have hevent : (b.event (.deposit check h value)).deposit? = some (h, value) := by
      rw [event, Box.perform, hr, Reply.map, outcome_countDown b.cycle hleft]
      rfl
    have hsame := (b.keep h b.cycle value).sameStamps_countDown b.cycle
    have hcycle := ((b.keep h b.cycle value).standing_countDown b.cycle).1
    rw [hr]
    refine ⟨fun s hmem => ?_, fun g hg => ?_⟩
    · obtain ⟨kept, hkept, hhandle, hstamp⟩ := hsame.stamps s hmem
      obtain ⟨old, hold, rfl⟩ := List.mem_map.mp hkept
      rw [hstamp, hcycle, hhandle, spent_of_deposit hevent]
      by_cases htask : old.task = h.task
      · have hsame : b.handle old = h := (task_eq_iff hb.nodup live hold).mp htask
        rw [if_pos htask]
        exact iff_of_true ⟨Nat.ne_of_gt (hb.started hphase).1, rfl⟩ (.inl hsame)
      · have hne : b.handle old ≠ h := fun heq => htask (congrArg Handle.task heq)
        rw [if_neg htask]
        exact (hs.stamps old hold).trans ⟨.inr, fun hor => hor.resolve_left hne⟩
    · rw [hsame.token]
      rw [spent_of_deposit hevent] at hg
      rcases hg with rfl | hg
      · rw [← handle_of_live live]
        exact hb.issued reg (mem_of_live live)
      · exact hs.issued g hg

/-- **One call keeps the stamps** of an accumulate box. -/
theorem perform (hs : b.Stamped seen) (hb : b.Orderly) (hmode : b.mode = .accumulate)
    (c : Call P D) : (b.perform c).box.Stamped (seen ++ [b.event c]) := by
  cases c with
  | register task => exact hs.register task
  | unregister h =>
    change (b.unregister h).box.Stamped _
    unfold Box.unregister
    split
    · exact hs.refused rfl rfl
    · exact hs.fewer rfl rfl (fun _ hr => List.mem_of_mem_filter hr) rfl rfl
  | publish payload => exact hs.publish hb payload
  | close =>
    rw [Box.perform, close_of_accumulate hmode]
    exact hs.refused rfl rfl
  | retrieve h =>
    rcases b.retrieve_cases h with ⟨r, hr, -⟩ | ⟨payload, -, -, hr⟩ <;> rw [Box.perform, hr]
    · exact hs.refused rfl rfl
    · exact hs.fewer rfl rfl (List.Subset.refl _) rfl rfl
  | deposit check h value => exact hs.deposit hb check h value

end Stamped

namespace Agrees

/-- **One call keeps a box in agreement** with what is seen of it. -/
theorem perform (hb : b.Agrees seen) (c : Call P D) :
    (b.perform c).box.Agrees (seen ++ [b.event c]) where
  orderly := hb.orderly.perform c
  handles := by
    rw [handlesOut, List.foldl_append, ← handlesOut, hb.handles, handles_perform hb.orderly.nodup c]
    rfl
  payload := by rw [payload_perform, published_concat, hb.payload]
  stamped := by
    intro hmode
    rw [(b.label_mode_perform c).2] at hmode
    exact (hb.stamped hmode).perform hb.orderly hmode c
  unspent := by
    intro hmode h hspent
    rw [(b.label_mode_perform c).2] at hmode
    rcases since_concat.mp hspent with ⟨value, hd⟩ | ⟨hbefore, -⟩
    · obtain ⟨-, -, haccumulate⟩ := live_of_deposit hd
      cases hmode.symm.trans haccumulate
    · exact hb.unspent hmode h hbefore

/-- **A run of calls keeps a box in agreement** with what is seen of it. -/
theorem after (hb : b.Agrees seen) (calls : List (Call P D)) :
    (b.after calls).Agrees (seen ++ b.history calls) := by
  induction calls generalizing b seen with
  | nil =>
    rw [history_nil, List.append_nil]
    exact hb
  | cons c calls ih =>
    have hrest := ih (hb.perform c)
    rw [List.append_assoc] at hrest
    exact hrest

/-! ## What decides a call -/

/-- A handle that is not out is not live. -/
theorem live_eq_none_iff (hb : b.Agrees seen) {h : Handle} :
    b.live? h = none ↔ h ∉ handlesOut seen := by
  rw [hb.handles, Box.live_eq_none_iff hb.orderly.nodup]

/-- A handle that is live is out. -/
theorem not_unknown (hb : b.Agrees seen) {h : Handle} {r : Registration D}
    (live : b.live? h = some r) : ¬ h ∉ handlesOut seen := by
  rw [← hb.live_eq_none_iff, live]
  nofun

theorem ruling_register (hb : b.Agrees seen) (task : ComputeId) :
    Ruling b (objections b.standing seen (.register task)) (b.register task) := by
  have hiff : task ∈ (handlesOut seen).map Handle.task ↔ task ∈ b.tasks := by
    rw [hb.handles, map_task_handles]
  by_cases hmem : task ∈ b.tasks
  · rw [register_of_mem hmem]
    exact .refused (hiff.mpr hmem)
  · rw [register, if_neg hmem]
    exact .passed (mt hiff.mp hmem) (.accepted rfl)

theorem ruling_unregister (hb : b.Agrees seen) (h : Handle) :
    Ruling b (objections b.standing seen (.unregister h)) (b.unregister h) := by
  cases live : b.live? h with
  | none =>
    rw [unregister_of_unknown live]
    exact .refused (hb.live_eq_none_iff.mp live)
  | some r =>
    rw [unregister, live]
    exact .passed (hb.not_unknown live) (.accepted rfl)

theorem ruling_publish (payload : P) :
    Ruling b (objections b.standing seen (.publish payload)) (b.publish payload) := by
  by_cases hphase : b.phase = .idle
  · exact .passed (Decidable.not_not.mpr hphase) (.accepted (publish_next hphase payload).1)
  · rw [publish_of_busy payload hphase]
    exact .refused hphase

theorem ruling_close : Ruling b (objections b.standing seen .close) b.close := by
  cases hmode : b.mode with
  | accumulate =>
    rw [close_of_accumulate hmode]
    exact .refused hmode
  | read =>
    have hread : ¬ b.standing.mode = .accumulate := by simp [standing, hmode]
    by_cases hphase : b.phase = .opened
    · rw [close_of_opened hmode hphase]
      exact .passed hread (.passed (Decidable.not_not.mpr hphase) (.accepted rfl))
    · rw [close_of_not_opened hmode hphase]
      exact .passed hread (.refused hphase)

theorem ruling_retrieve (hb : b.Agrees seen) (h : Handle) :
    Ruling b (objections b.standing seen (.retrieve h)) (b.retrieve h) := by
  cases live : b.live? h with
  | none =>
    rw [retrieve, live]
    exact .refused (hb.live_eq_none_iff.mp live)
  | some r =>
    refine .passed (hb.not_unknown live) ?_
    by_cases hphase : b.phase = .opened
    · -- a cycle under way has a payload
      obtain ⟨payload, hpayload⟩ := Option.ne_none_iff_exists'.mp (hb.orderly.started hphase).2
      rw [retrieve_of_live live hphase hpayload]
      exact .passed (Decidable.not_not.mpr hphase) (.accepted rfl)
    · have hclosed : b.retrieve h = b.refuse (.notOpen b.label) := by simp [retrieve, live, hphase]
      rw [hclosed]
      exact .refused hphase

/-- A deposit that is not barred is judged by the check and counted. -/
theorem ruling_judged (hb : b.Agrees seen) {h : Handle} {r : Registration D}
    (live : b.live? h = some r) (hmode : b.mode = .accumulate) (hphase : b.phase = .opened)
    (hfresh : r.lastCycle ≠ b.cycle) (check : ComputeId → P → D → Except Refusal Unit) (value : D) :
    Ruling b (verdict (published seen) check h.task value) (b.deposit check h value) := by
  have hadm : b.admission h = .ok b.cycle := by simp [admission, live, hmode, hfresh, hphase]
  have hok : b.judge check h.task value = .ok () →
      (b.deposit check h value).outcome = .ok () := by
    intro hjudge
    rw [deposit_of_live live hmode hphase hfresh hjudge]
    exact outcome_countDown b.cycle ((hb.orderly.awaiting hmode).mp hphase)
  rw [← hb.payload, verdict]
  cases hpayload : b.payload with
  | none => exact .accepted (hok (by rw [judge, hpayload]))
  | some payload =>
    have hjudge : b.judge check h.task value = check h.task payload value := by
      rw [judge, hpayload]
    cases hcheck : check h.task payload value with
    | ok => simpa [hcheck] using .accepted (hok (hjudge.trans hcheck))
    | error e =>
      have hrefused : b.deposit check h value = b.refuse e := by
        simp [deposit, hadm, hjudge, hcheck]
      rw [hrefused]
      simpa [hcheck] using .refused trivial

theorem ruling_deposit (hb : b.Agrees seen) (check : ComputeId → P → D → Except Refusal Unit)
    (h : Handle) (value : D) :
    Ruling b (objections b.standing seen (.deposit check h value)) (b.deposit check h value) := by
  cases live : b.live? h with
  | none =>
    rw [deposit, admission, live]
    exact .refused (hb.live_eq_none_iff.mp live)
  | some r =>
    refine .passed (hb.not_unknown live) ?_
    cases hmode : b.mode with
    | read =>
      have hrefused : b.deposit check h value = b.refuse (.wrongMode b.label h.task) := by
        simp [deposit, admission, live, hmode]
      rw [hrefused]
      exact .refused hmode
    | accumulate =>
      have hwrites : ¬ b.standing.mode = .read := by simp [standing, hmode]
      refine .passed hwrites ?_
      have hstamp := (hb.stamped hmode).stamps r (mem_of_live live)
      rw [handle_of_live live] at hstamp
      by_cases hspent : b.cycle ≠ 0 ∧ r.lastCycle = b.cycle
      · have hrefused : b.deposit check h value =
            b.refuse (.doubleUse b.label h.task b.cycle) := by
          simp [deposit, admission, live, hmode, hspent]
        rw [hrefused]
        exact .refused (hstamp.mp hspent)
      · refine .passed (mt hstamp.mpr hspent) ?_
        by_cases hphase : b.phase = .opened
        · have hfresh : r.lastCycle ≠ b.cycle := fun heq =>
            hspent ⟨Nat.ne_of_gt (hb.orderly.started hphase).1, heq⟩
          exact .passed (Decidable.not_not.mpr hphase)
            (hb.ruling_judged live hmode hphase hfresh check value)
        · have hrefused : b.deposit check h value = b.refuse (.notOpen b.label) := by
            rw [deposit, admission, live]
            simp [hmode, hphase, hspent]
          rw [hrefused]
          exact .refused hphase

/-- **Every call is ruled** by the first objection raised. -/
theorem ruling (hb : b.Agrees seen) (c : Call P D) :
    Ruling b (objections b.standing seen c) (b.perform c) := by
  cases c with
  | register task => exact (hb.ruling_register task).map _
  | unregister h => exact (hb.ruling_unregister h).map _
  | publish payload => exact (ruling_publish payload).map _
  | close => exact ruling_close.map _
  | retrieve h => exact (hb.ruling_retrieve h).map _
  | deposit check h value => exact (hb.ruling_deposit check h value).map _

/-- A handle that is out deposits what the check lets pass, while the box is open and the handle is
not spent. -/
theorem deposits (hb : b.Agrees seen) {h : Handle} (hout : h ∈ handlesOut seen)
    (hmode : b.mode ≠ .read) (hfresh : ¬ Spent seen h) (hphase : b.phase = .opened)
    {check : ComputeId → P → D → Except Refusal Unit} {value : D}
    (hpass : verdict (published seen) check h.task value = []) :
    (b.deposit check h value).outcome = .ok () := by
  have hnone : ∀ o ∈ objections b.standing seen (.deposit check h value), ¬ o.raised := by
    simp [objections, barring, hpass, standing, hout, hmode, hfresh, hphase]
  obtain ⟨⟨⟩, hok⟩ := (hb.ruling_deposit check h value).ok_iff.mpr hnone
  exact hok

/-- A handle that is out and spent is refused for that, whatever it deposits. -/
theorem refuses_spent (hb : b.Agrees seen) {h : Handle} (hout : h ∈ handlesOut seen)
    (hmode : b.mode ≠ .read) (hspent : Spent seen h)
    (check : ComputeId → P → D → Except Refusal Unit) (value : D) :
    (b.deposit check h value).outcome = .error (.doubleUse b.label h.task b.cycle) := by
  refine (hb.ruling_deposit check h value).error_iff.mpr ?_
  simp [objections, barring, firstRaised_cons, standing, hout, hmode, hspent]

end Agrees

/-! ## Acceptance -/

/-- **Acceptance is exact and refusals are atomic.** Take a box of either mode after any run of
calls, each deposit judged by a check of its own.

* Every call is accepted exactly if no objection is raised against it.
* It is refused exactly with the first one raised, and then the box is as it was and nobody hears of
  a completion.
* A handle that nothing bars from depositing stays so while it is out, the box is open and no
  deposit of it was accepted: one that the check refuses may be made again.
* A handle that is spent reports its double use, whatever else is done, until the box is opened
  again. -/
theorem acceptance_exact (serial : Nat) (label : BoxLabel) (mode : BoxMode)
    (calls : List (Call P D)) :
    let start : Box P D := new serial label mode
    let b := start.after calls
    let seen := start.history calls
    (∀ c, (∃ a, (b.perform c).outcome = .ok a) ↔
      ∀ o ∈ objections b.standing seen c, ¬ o.raised) ∧
    (∀ c r, ((b.perform c).outcome = .error r ↔ FirstRaised (objections b.standing seen c) r) ∧
      ((b.perform c).outcome = .error r →
        (b.perform c).box = b ∧ (b.perform c).completion = none)) ∧
    ∀ h more,
      let b' := b.after more
      let seen' := start.history (calls ++ more)
      h ∈ handlesOut seen' →
      ((∀ o ∈ barring b.standing seen h, ¬ o.raised) → b'.phase = .opened →
        (∀ e ∈ b.history more, ∀ value, e.deposit? ≠ some (h, value)) →
        ∀ check value, verdict (published seen') check h.task value = [] →
          (b'.deposit check h value).outcome = .ok ()) ∧
      (Spent seen h → (∀ e ∈ b.history more, ¬ e.opens) → ∀ check value,
        (b'.deposit check h value).outcome = .error (.doubleUse label h.task b.cycle)) := by
  intro start b seen
  have hagrees : ∀ run, (start.after run).Agrees (start.history run) := fun run =>
    (agrees_new serial label mode).after run
  have hb : b.Agrees seen := hagrees calls
  refine ⟨fun c => (hb.ruling c).ok_iff,
    fun c r => ⟨(hb.ruling c).error_iff, (hb.ruling c).unchanged⟩, fun h more => ?_⟩
  intro b' seen' hout
  have hseen : seen' = seen ++ b.history more := start.history_append calls more
  have hb' : b'.Agrees seen' := by
    have hrun := hagrees (calls ++ more)
    rw [after_append] at hrun
    exact hrun
  have hmode : b'.mode = b.mode := (b.label_mode_after more).2
  refine ⟨fun hbarring hphase hnone check value hpass => ?_, fun hspent hopens check value => ?_⟩
  · simp only [barring, List.forall_mem_cons] at hbarring
    obtain ⟨-, hwrites, hfresh, -⟩ := hbarring
    refine hb'.deposits hout (hmode ▸ hwrites) ?_ hphase hpass
    -- the handle was not spent before, and it has not deposited since
    rw [hseen, Spent, since_append]
    rintro (⟨early, e, late, hsplit, ⟨value, hd⟩, -⟩ | ⟨hspent, -⟩)
    · exact hnone e (hsplit ▸ List.mem_append_right _ List.mem_cons_self) value hd
    · exact hfresh hspent
  · have hwrites : b.mode ≠ .read := fun hread => hb.unspent hread h hspent
    have hstill : Spent seen' h := by
      rw [hseen, Spent, since_append]
      exact .inr ⟨hspent, hopens⟩
    have hlabel : b'.label = label :=
      (b.label_mode_after more).1.trans (start.label_mode_after calls).1
    have hrefused := hb'.refuses_spent hout (hmode ▸ hwrites) hstill check value
    rw [hlabel, show b'.cycle = b.cycle from cycle_after hopens] at hrefused
    exact hrefused

/-- The deposit of the only handle closes the cycle. A second one is refused for its double use,
which comes before the box being idle, and the next opening makes the handle good again. -/
example (label : BoxLabel) :
    let h : Handle := ⟨0, ⟨5⟩, 1⟩
    let deposit : Call Unit Nat := .deposit acceptAll h 7
    ((new 0 label .accumulate).history
      [.register ⟨5⟩, .publish (), deposit, deposit, .publish (), deposit]).map Event.outcome =
    [.ok (.handle h), .ok (.cycle 1), .ok .done, .error (.doubleUse label ⟨5⟩ 1),
      .ok (.cycle 2), .ok .done] := by cbv

end Box

end PatchDynamics
