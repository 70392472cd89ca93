import Mathlib.Data.Set.Card
import Mathlib.Logic.Function.Basic
import PatchDynamics.Proofs.Box.Completion

/-!
# Who holds which handle

Several boxes are in use at once, and any handle may be tried on any of them. A box knows its
handles by three numbers, its own serial number, the compute and the token; whether that is enough
is a matter of all that was ever done to all the boxes:

* `Act` — what is done to a box at one moment: a call, or one of the two halves of a deposit, so
  that other acts may get in between them;
* `Deals` — all that one act can do to the handles of a box: issue one, take one back, or neither;
* `Boxes`, `Deed`, `Entry` — boxes by their serial numbers, an act on one of them, and what is seen
  of it;
* `Held` — by what was seen, a handle was issued by a box and has not been given back to it;
* `Custody` — the invariant: the handles of each box are those held, and no issued one comes again.

The main statement is `handles_exact`: a box accepts exactly the handles that are held of it.
-/

namespace PatchDynamics

namespace Box

variable {P D : Type}

/-! ## Acts -/

/-- What is done to a box at one moment. -/
inductive Act (P D : Type) where
  /-- a call -/
  | call (c : Call P D)
  /-- the first half of a deposit, up to the check of the value -/
  | admission (h : Handle)
  /-- the second half of a deposit, after the check -/
  | settle (h : Handle) (cycle : Nat) (value : D)

/-- Does it. -/
def act (b : Box P D) : Act P D → Reply P D (Answer P)
  | .call c => b.perform c
  | .admission h => ⟨(b.admission h).map .cycle, none, b⟩
  | .settle h cycle value => (b.settle h cycle value).map fun _ => .done

namespace Act

/-- The handle that was issued, if the act registered a compute. -/
def issued? (a : Act P D) (outcome : Except Refusal (Answer P)) : Option Handle :=
  match a, outcome with
  | .call (.register _), .ok (.handle h) => some h
  | _, _ => none

/-- The handle that was taken back, if the act gave one back. -/
def returned? (a : Act P D) (outcome : Except Refusal (Answer P)) : Option Handle :=
  match a, outcome with
  | .call (.unregister h), .ok _ => some h
  | _, _ => none

end Act

/-- The numbers by which a box makes handles. -/
def mint (b : Box P D) : Nat × Nat := (b.serial, b.nextToken)

theorem mint_publish (b : Box P D) (payload : P) : (b.publish payload).box.mint = b.mint := by
  unfold publish
  split
  · rfl
  · dsimp only
    split <;> rfl

theorem mint_close (b : Box P D) : b.close.box.mint = b.mint := by
  unfold close
  split
  · rfl
  · split <;> rfl

theorem mint_retrieve (b : Box P D) (h : Handle) : (b.retrieve h).box.mint = b.mint := by
  rcases b.retrieve_cases h with ⟨_, hr, -⟩ | ⟨_, -, -, hr⟩ <;> rw [hr] <;> rfl

theorem mint_countDown (b : Box P D) (cycle : Nat) : (b.countDown cycle).box.mint = b.mint := by
  unfold countDown
  split <;> rfl

theorem mint_deposit (b : Box P D) (check : ComputeId → P → D → Except Refusal Unit) (h : Handle)
    (value : D) : (b.deposit check h value).box.mint = b.mint := by
  rcases b.deposit_cases check h value with ⟨r, hr, -⟩ | ⟨r, -, -, -, -, -, hr⟩
  · rw [hr]
    rfl
  · rw [hr, mint_countDown]
    rfl

/-- All that one act can do to the handles of a box: what it issues, what it takes back, and the box
afterwards. -/
inductive Deals (b : Box P D) : Option Handle → Option Handle → Box P D → Prop where
  /-- it issues the next handle, to a compute that is not registered -/
  | issues {task : ComputeId} {b' : Box P D} (new : task ∉ b.tasks)
      (mint : b'.mint = (b.serial, b.nextToken + 1))
      (handles : b'.handles = b.handles ++ [⟨b.serial, task, b.nextToken⟩]) :
      Deals b (some ⟨b.serial, task, b.nextToken⟩) none b'
  /-- it takes back a handle that is out -/
  | takes {h : Handle} {b' : Box P D} (mint : b'.mint = b.mint)
      (handles : b'.handles = b.handles.filter (· ≠ h)) : Deals b none (some h) b'
  /-- it leaves all handles where they are -/
  | leaves {b' : Box P D} (mint : b'.mint = b.mint) (handles : b'.handles = b.handles) :
      Deals b none none b'

/-- A refused call leaves the handles. -/
theorem Deals.refused (b : Box P D) : Deals b none none b := .leaves rfl rfl

theorem deals_register (b : Box P D) (task : ComputeId) :
    Deals b ((.call (.register task) : Act P D).issued? (b.perform (.register task)).outcome) none
      (b.perform (.register task)).box := by
  by_cases hmem : task ∈ b.tasks
  · rw [perform, register_of_mem hmem]
    exact .refused b
  · rw [perform, register, if_neg hmem]
    exact .issues hmem rfl List.map_append

theorem deals_unregister {b : Box P D} (nodup : b.tasks.Nodup) (h : Handle) :
    Deals b none
      ((.call (.unregister h) : Act P D).returned? (b.perform (.unregister h)).outcome)
      (b.perform (.unregister h)).box := by
  rcases live : b.live? h with _ | r
  · rw [perform, unregister_of_unknown live]
    exact .refused b
  · have hr := handles_unregister nodup live
    rw [unregister, live] at hr
    rw [perform, unregister, live]
    exact .takes rfl hr

/-- The second half of a deposit leaves the handles. -/
theorem deals_settle (b : Box P D) (h : Handle) (cycle : Nat) (value : D) :
    Deals b none none (b.settle h cycle value).box := by
  unfold settle
  split
  · exact .refused b
  · split
    · exact .refused b
    · refine .leaves ?_ ?_
      · rw [mint_countDown]
        rfl
      · rw [handles_countDown, handles_keep]

/-- **What an act does** to the handles of a box. -/
theorem deals_act {b : Box P D} (nodup : b.tasks.Nodup) (a : Act P D) :
    Deals b (a.issued? (b.act a).outcome) (a.returned? (b.act a).outcome) (b.act a).box := by
  cases a with
  | admission h => exact .refused b
  | settle h cycle value => exact b.deals_settle h cycle value
  | call c =>
    have hhandles := handles_perform nodup c
    cases c with
    | register task => exact b.deals_register task
    | unregister h => exact deals_unregister nodup h
    | publish payload => exact .leaves (b.mint_publish payload) hhandles
    | close => exact .leaves b.mint_close hhandles
    | retrieve h => exact .leaves (b.mint_retrieve h) hhandles
    | deposit check h value => exact .leaves (b.mint_deposit check h value) hhandles

/-! ## The check of a handle -/

/-- A call with a handle is refused since the box does not know the handle. -/
def Unknown {α : Type} (b : Box P D) (h : Handle) (outcome : Except Refusal α) : Prop :=
  outcome = .error (.unknownHandle b.label h.task)

/-- A box knows exactly the handles that satisfy `held`. -/
structure Knows (b : Box P D) (held : Handle → Prop) : Prop where
  /-- others are not taken back -/
  unregister : ∀ h, b.Unknown h (b.unregister h).outcome ↔ ¬ held h
  /-- others do not read -/
  retrieve : ∀ h, b.Unknown h (b.retrieve h).outcome ↔ ¬ held h
  /-- others do not pass the first half of a deposit -/
  admission : ∀ h, b.Unknown h (b.admission h) ↔ ¬ held h
  /-- nor the second -/
  settle : ∀ h cycle value, b.Unknown h (b.settle h cycle value).outcome ↔ ¬ held h
  /-- others do not deposit; after the first half the check of the value may say so as well -/
  deposit : ∀ check h value, b.Unknown h (b.deposit check h value).outcome ↔
    ¬ held h ∨ b.admission h = .ok b.cycle ∧ b.Unknown h (b.judge check h.task value)

theorem live_eq_none_iff {b : Box P D} (nodup : b.tasks.Nodup) {h : Handle} :
    b.live? h = none ↔ h ∉ b.handles := by
  constructor
  · intro hnone hmem
    obtain ⟨r, -, -, live⟩ := live_of_mem_handles nodup hmem
    cases hnone.symm.trans live
  · intro hnot
    cases live : b.live? h with
    | none => rfl
    | some r => exact absurd (mem_handles_of_live live) hnot

section Unknown

variable (b : Box P D) (h : Handle)

theorem unknown_unregister : b.Unknown h (b.unregister h).outcome ↔ b.live? h = none := by
  rw [Unknown, unregister]
  cases b.live? h with
  | none => simp [refuse]
  | some r => simp

theorem unknown_retrieve : b.Unknown h (b.retrieve h).outcome ↔ b.live? h = none := by
  rw [Unknown, retrieve]
  cases b.live? h with
  | none => simp [refuse]
  | some r =>
    refine iff_of_false (fun hr => ?_) (Option.some_ne_none r)
    dsimp only at hr
    split at hr
    · cases hr
    · split at hr <;> cases hr

theorem unknown_admission : b.Unknown h (b.admission h) ↔ b.live? h = none := by
  rw [Unknown, admission]
  cases b.live? h with
  | none => simp
  | some r =>
    refine iff_of_false (fun hr => ?_) (Option.some_ne_none r)
    dsimp only at hr
    repeat' split at hr
    all_goals cases hr

theorem unknown_settle (cycle : Nat) (value : D) :
    b.Unknown h (b.settle h cycle value).outcome ↔ b.live? h = none := by
  rw [Unknown, settle]
  cases b.live? h with
  | none => simp [refuse]
  | some r =>
    refine iff_of_false (fun hr => ?_) (Option.some_ne_none r)
    dsimp only at hr
    split at hr
    · cases hr
    · unfold countDown at hr
      split at hr <;> cases hr

theorem unknown_deposit (check : ComputeId → P → D → Except Refusal Unit) (value : D) :
    b.Unknown h (b.deposit check h value).outcome ↔
      b.live? h = none ∨
        b.admission h = .ok b.cycle ∧ b.Unknown h (b.judge check h.task value) := by
  rw [deposit]
  cases hadm : b.admission h with
  | error r =>
    have hfirst := b.unknown_admission h
    rw [hadm, Unknown, Except.error.injEq] at hfirst
    change Except.error r = Except.error (.unknownHandle b.label h.task) ↔ _
    rw [Except.error.injEq, hfirst]
    simp
  | ok cycle =>
    obtain ⟨s, live, -, -, rfl⟩ := admitted hadm
    have hlive : b.live? h ≠ none := by simp [live]
    cases hjudge : b.judge check h.task value with
    | error r => exact ⟨fun hr => .inr ⟨rfl, hr⟩, fun hor => (hor.resolve_left hlive).2⟩
    | ok =>
      refine (b.unknown_settle h b.cycle value).trans ⟨Or.inl, fun hor => hor.resolve_right ?_⟩
      rintro ⟨-, hok⟩
      cases hok

end Unknown

/-- A box knows the handles that are out. -/
theorem knows_of_nodup {b : Box P D} (nodup : b.tasks.Nodup) {held : Handle → Prop}
    (hheld : ∀ h, h ∈ b.handles ↔ held h) : b.Knows held := by
  have hnone : ∀ h, b.live? h = none ↔ ¬ held h := fun h =>
    (live_eq_none_iff nodup).trans (not_congr (hheld h))
  refine ⟨fun h => ?_, fun h => ?_, fun h => ?_, fun h cycle value => ?_, fun check h value => ?_⟩
  · rw [unknown_unregister, hnone]
  · rw [unknown_retrieve, hnone]
  · rw [unknown_admission, hnone]
  · rw [unknown_settle, hnone]
  · rw [unknown_deposit, hnone]

end Box

/-! ## Several boxes -/

/-- Boxes by their serial numbers, each with payloads and deposits of its own types. -/
abbrev Boxes (P D : Nat → Type) : Type := ∀ n, Box (P n) (D n)

namespace Boxes

variable {P D : Nat → Type}

/-- New boxes. No two have the same serial number. -/
def new (label : Nat → BoxLabel) (mode : Nat → BoxMode) : Boxes P D :=
  fun n => Box.new n (label n) (mode n)

/-- An act on one of the boxes. -/
structure Deed (P D : Nat → Type) where
  /-- the serial number of the box -/
  box : Nat
  /-- what is done to it -/
  act : Box.Act (P box) (D box)

/-- What is seen of it. -/
structure Entry (P D : Nat → Type) extends Deed P D where
  /-- what came of it -/
  outcome : Except Refusal (Box.Answer (P box))

namespace Entry

/-- The handle that was issued, if a compute was registered. -/
def issued? (e : Entry P D) : Option Handle := e.act.issued? e.outcome

/-- The handle that was taken back, if one was given back. -/
def returned? (e : Entry P D) : Option Handle := e.act.returned? e.outcome

end Entry

/-- The boxes after an act on one of them. -/
def step (s : Boxes P D) (d : Deed P D) : Boxes P D :=
  Function.update s d.box ((s d.box).act d.act).box

/-- What is seen of an act on one of the boxes. -/
def entry (s : Boxes P D) (d : Deed P D) : Entry P D := ⟨d, ((s d.box).act d.act).outcome⟩

/-- The boxes after some acts. -/
def after (s : Boxes P D) (deeds : List (Deed P D)) : Boxes P D := deeds.foldl step s

/-- What is seen of each of some acts, in order. -/
def history : Boxes P D → List (Deed P D) → List (Entry P D) := trace step entry

/-- The handles that were issued, in order. -/
def issued (seen : List (Entry P D)) : List Handle := seen.filterMap Entry.issued?

/-- A handle is held of a box: the box issued it, and it has not been given back to it since. -/
def Held (seen : List (Entry P D)) (n : Nat) (h : Handle) : Prop :=
  Since (fun e => e.box = n ∧ e.issued? = some h) (fun e => ¬ (e.box = n ∧ e.returned? = some h))
    seen

variable {s : Boxes P D} {seen : List (Entry P D)} {e : Entry P D} {n : Nat} {h : Handle}

theorem after_concat (s : Boxes P D) (deeds : List (Deed P D)) (d : Deed P D) :
    s.after (deeds ++ [d]) = (s.after deeds).step d := List.foldl_append

theorem history_concat (s : Boxes P D) (deeds : List (Deed P D)) (d : Deed P D) :
    s.history (deeds ++ [d]) = s.history deeds ++ [(s.after deeds).entry d] :=
  trace_append s deeds [d]

theorem step_self (s : Boxes P D) (d : Deed P D) :
    s.step d d.box = ((s d.box).act d.act).box := Function.update_self ..

theorem step_of_ne (s : Boxes P D) {d : Deed P D} (hne : n ≠ d.box) : s.step d n = s n :=
  Function.update_of_ne hne ..

theorem issued_concat : issued (seen ++ [e]) = issued seen ++ e.issued?.toList := by
  rw [issued, List.filterMap_append]
  cases he : e.issued? <;> simp [issued, he]

/-- One more act issues the handle, or does not take it back. -/
theorem held_concat : Held (seen ++ [e]) n h ↔
    (e.box = n ∧ e.issued? = some h) ∨ Held seen n h ∧ ¬ (e.box = n ∧ e.returned? = some h) :=
  since_concat

/-- An act on another box leaves the handle where it is. -/
theorem held_concat_of_ne (hne : n ≠ e.box) : Held (seen ++ [e]) n h ↔ Held seen n h := by
  rw [held_concat]
  exact ⟨fun hor => hor.elim (fun hissued => absurd hissued.1.symm hne) And.left,
    fun hheld => .inr ⟨hheld, fun hreturned => hne hreturned.1.symm⟩⟩

theorem held_concat_self : Held (seen ++ [e]) e.box h ↔
    e.issued? = some h ∨ Held seen e.box h ∧ e.returned? ≠ some h := by
  rw [held_concat, and_iff_right rfl, and_iff_right rfl]

/-! ## The invariant -/

/-- The boxes agree with what was seen about the handles. -/
structure Custody (s : Boxes P D) (seen : List (Entry P D)) : Prop where
  /-- a box goes by its serial number -/
  serial : ∀ n, (s n).serial = n
  /-- no compute is registered twice with a box -/
  nodup : ∀ n, (s n).tasks.Nodup
  /-- the handles that are out are those that are held -/
  held : ∀ n h, h ∈ (s n).handles ↔ Held seen n h
  /-- the token that comes next was not issued yet -/
  tokens : ∀ h ∈ issued seen, h.token < (s h.box).nextToken
  /-- no handle was issued twice -/
  distinct : (issued seen).Nodup

theorem custody_new (label : Nat → BoxLabel) (mode : Nat → BoxMode) :
    (new label mode : Boxes P D).Custody [] where
  serial := fun _ => rfl
  nodup := fun _ => List.nodup_nil
  held := fun _ _ => ⟨nofun, fun hheld => absurd hheld not_since_nil⟩
  tokens := nofun
  distinct := List.nodup_nil

namespace Custody

variable {d : Deed P D}

/-- The handles and the tokens after an act, given what it did to the handles of its box. -/
theorem of_deals (hs : s.Custody seen) {issues takes : Option Handle} {b : Box (P d.box) (D d.box)}
    (hdeals : Box.Deals (s d.box) issues takes b) :
    b.serial = d.box ∧ b.tasks.Nodup ∧
      (∀ h, h ∈ b.handles ↔ issues = some h ∨ h ∈ (s d.box).handles ∧ takes ≠ some h) ∧
      (s d.box).nextToken ≤ b.nextToken ∧
      (issued seen ++ issues.toList).Nodup ∧
      ∀ h ∈ issues.toList, h.box = d.box ∧ h.token < b.nextToken := by
  have hserial := hs.serial d.box
  have hnodup := hs.nodup d.box
  rw [← Box.map_task_handles] at hnodup ⊢
  cases hdeals with
  | @issues task _ hnew hmint hhandles =>
    obtain ⟨hsame, htoken⟩ := Prod.mk.inj hmint
    refine ⟨hsame.trans hserial, ?_, fun h => ?_, ?_, ?_, ?_⟩
    · rw [hhandles, List.map_append]
      refine List.nodup_append_comm.mp (List.nodup_cons.mpr ⟨?_, hnodup⟩)
      rwa [Box.map_task_handles]
    · rw [hhandles, List.mem_append, List.mem_singleton, Option.some.injEq, or_comm, eq_comm]
      simp
    · rw [htoken]
      exact Nat.le_succ _
    · -- the token is new to the box, and the serial number is not that of another box
      refine List.nodup_append_comm.mp (List.nodup_cons.mpr ⟨fun hmem => ?_, hs.distinct⟩)
      have hlt := hs.tokens _ hmem
      dsimp only at hlt
      rw [hserial] at hlt
      exact Nat.lt_irrefl _ hlt
    · intro h hh
      rw [Option.toList_some, List.mem_singleton] at hh
      rw [hh, htoken]
      exact ⟨hserial, Nat.lt_succ_self _⟩
  | @takes g _ hmint hhandles =>
    obtain ⟨hsame, htoken⟩ := Prod.mk.inj hmint
    refine ⟨hsame.trans hserial, ?_, fun h => ?_, Nat.le_of_eq htoken.symm, ?_, nofun⟩
    · rw [hhandles]
      exact hnodup.sublist (List.filter_sublist.map _)
    · rw [hhandles, List.mem_filter, decide_eq_true_eq, ne_comm]
      simp
    · rw [Option.toList_none, List.append_nil]
      exact hs.distinct
  | leaves hmint hhandles =>
    obtain ⟨hsame, htoken⟩ := Prod.mk.inj hmint
    refine ⟨hsame.trans hserial, hhandles ▸ hnodup, fun h => ?_, Nat.le_of_eq htoken.symm, ?_,
      nofun⟩
    · rw [hhandles]
      simp
    · rw [Option.toList_none, List.append_nil]
      exact hs.distinct

/-- **One act keeps custody.** -/
theorem step (hs : s.Custody seen) (d : Deed P D) : (s.step d).Custody (seen ++ [s.entry d]) := by
  obtain ⟨hserial, hnodup, hhandles, hle, hdistinct, hissues⟩ :=
    hs.of_deals (Box.deals_act (hs.nodup d.box) d.act)
  -- what holds of every box is shown of the box that was acted on, and of the others
  refine ⟨fun n => ?_, fun n => ?_, fun n h => ?_, fun h hh => ?_, ?_⟩
  · by_cases hn : n = d.box
    · rw [hn, step_self]
      exact hserial
    · rw [step_of_ne s hn]
      exact hs.serial n
  · by_cases hn : n = d.box
    · rw [hn, step_self]
      exact hnodup
    · rw [step_of_ne s hn]
      exact hs.nodup n
  · by_cases hn : n = d.box
    · subst hn
      rw [step_self, hhandles, hs.held]
      exact (held_concat_self (e := s.entry d)).symm
    · rw [step_of_ne s hn, hs.held]
      exact (held_concat_of_ne (e := s.entry d) hn).symm
  · have hlt : h.token < (s h.box).nextToken ∨
        h.box = d.box ∧ h.token < ((s d.box).act d.act).box.nextToken := by
      rw [issued_concat] at hh
      exact (List.mem_append.mp hh).imp (hs.tokens h) (hissues h)
    by_cases hn : h.box = d.box
    · rw [hn] at hlt ⊢
      rw [step_self]
      exact hlt.elim (Nat.lt_of_lt_of_le · hle) And.right
    · rw [step_of_ne s hn]
      exact hlt.resolve_right fun hboth => hn hboth.1
  · rw [issued_concat]
    exact hdistinct

/-- **A run of acts keeps custody.** -/
theorem after (label : Nat → BoxLabel) (mode : Nat → BoxMode) (deeds : List (Deed P D)) :
    ((new label mode).after deeds).Custody ((new label mode).history deeds) := by
  induction deeds using List.reverseRecOn with
  | nil => exact custody_new label mode
  | append_singleton deeds d ih =>
    rw [after_concat, history_concat]
    exact ih.step d

end Custody

/-- **Handles are exact capabilities.** Take any number of boxes and any run of acts on them, with
any handles on any boxes. No handle was issued twice. Each box knows exactly the handles that it
issued and that have not been given back to it since. No compute is registered with it twice, the
computes registered are those of the handles held of it, and it expects one deposit for each of
these handles. -/
theorem handles_exact (label : Nat → BoxLabel) (mode : Nat → BoxMode) (deeds : List (Deed P D)) :
    let start : Boxes P D := new label mode
    let seen := start.history deeds
    (issued seen).Nodup ∧ ∀ n,
      let b := start.after deeds n
      b.Knows (Held seen n) ∧
      b.tasks.Nodup ∧ (∀ task, task ∈ b.tasks ↔ ∃ h, Held seen n h ∧ h.task = task) ∧
      b.expected = {h | Held seen n h}.ncard := by
  intro start seen
  have hs : (start.after deeds).Custody seen := .after label mode deeds
  refine ⟨hs.distinct, fun n => ?_⟩
  intro b
  have hnodup : b.tasks.Nodup := hs.nodup n
  have hheld : ∀ h, h ∈ b.handles ↔ Held seen n h := hs.held n
  refine ⟨Box.knows_of_nodup hnodup hheld, hnodup, fun task => ?_, ?_⟩
  · rw [← b.map_task_handles, List.mem_map]
    simp only [hheld]
  · have hset : {h | Held seen n h} = (b.handles.toFinset : Set Handle) := by
      ext h
      simp [hheld]
    rw [hset, Set.ncard_coe_finset, List.toFinset_card_of_nodup (Box.nodup_handles hnodup),
      Box.length_handles]

/-- One compute is registered with two boxes. The second box does not take the handle of the first
one back; the first box does, and the handle that it issues next is another one. -/
example (label : BoxLabel) :
    let start : Boxes (fun _ => Unit) (fun _ => Unit) := new (fun _ => label) fun _ => .accumulate
    let h : Handle := ⟨0, ⟨5⟩, 1⟩
    (start.history [⟨0, .call (.register ⟨5⟩)⟩, ⟨1, .call (.register ⟨5⟩)⟩,
      ⟨1, .call (.unregister h)⟩, ⟨0, .call (.unregister h)⟩,
      ⟨0, .call (.register ⟨5⟩)⟩]).map (fun e => (e.issued?, e.returned?)) =
    [(some h, none), (some ⟨1, ⟨5⟩, 1⟩, none), (none, none), (none, some h),
      (some ⟨0, ⟨5⟩, 2⟩, none)] := by cbv

end Boxes

end PatchDynamics
