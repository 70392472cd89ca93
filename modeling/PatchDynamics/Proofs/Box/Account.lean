import Mathlib.Data.List.Forall2
import PatchDynamics.Proofs.Box.Contest

/-!
# Accounts of a race

What has been seen of a box comes to an account, and the account tells what may be seen next,
without a look at the box:

* `Account` — which handles are out, which were awaited at the opening of the latest cycle, and
  which have deposited what in it;
* `Grants` — the ways in which an attempt to deposit may go;
* `Accords` — everything that is seen is what may be seen;
* `Elapses` — what an account comes to within a cycle: deposits are added, no handle deposits twice,
  and the owner hears of a completion when everybody has deposited.
-/

namespace PatchDynamics

namespace Box

variable {P D : Type}

/-! ## Deliveries -/

/-- What a completion lists: for each handle in order, a value that was deposited through it. -/
def Delivers (handles : List Handle) (held : List (Handle × D)) (deposits : List (ComputeId × D)) :
    Prop :=
  List.Forall₂ (fun h d => d.1 = h.task ∧ (h, d.2) ∈ held) handles deposits

/-- What was delivered stays so when more is deposited. -/
theorem Delivers.mono {handles : List Handle} {held more : List (Handle × D)}
    {deposits : List (ComputeId × D)} (h : Delivers handles held deposits) :
    Delivers handles (held ++ more) deposits :=
  h.imp fun _ _ hd => ⟨hd.1, List.mem_append_left _ hd.2⟩

/-- If everybody has deposited, what is listed is what was deposited. -/
theorem delivers_listing {out : List Handle} {held : List (Handle × D)}
    (hall : ∀ h ∈ out, h ∈ held.map Prod.fst) : Delivers out held (listing out held) := by
  induction out with
  | nil => exact .nil
  | cons h out ih =>
    rw [List.forall_mem_cons] at hall
    cases hv : held.lookup h with
    | none => exact absurd hall.1 (InCycle.not_mem_of_lookup hv)
    | some v =>
      obtain ⟨early, late, hsplit, -⟩ := List.lookup_eq_some_iff.mp hv
      rw [listing, List.filterMap_cons, hv]
      refine .cons ⟨rfl, ?_⟩ (ih hall.2)
      rw [hsplit]
      exact List.mem_append_right _ List.mem_cons_self

/-! ## Accounts -/

/-- What the sights so far come to. -/
@[ext]
structure Account (D : Type) where
  /-- the handles that are out -/
  out : List Handle
  /-- the number of the latest cycle -/
  number : Nat
  /-- the handles that were out at its opening -/
  awaited : List Handle
  /-- the deposits accepted in it -/
  held : List (Handle × D)

namespace Account

variable {acc : Account D}

/-- The account before anything was seen. -/
def empty : Account D := ⟨[], 0, [], []⟩

/-- A handle has deposited. -/
def Spent (acc : Account D) (h : Handle) : Prop := h ∈ acc.held.map Prod.fst

instance (acc : Account D) (h : Handle) : Decidable (acc.Spent h) :=
  inferInstanceAs (Decidable (_ ∈ _))

/-- Every handle that was awaited has deposited. -/
def Complete (acc : Account D) : Prop := ∀ h ∈ acc.awaited, acc.Spent h

instance (acc : Account D) : Decidable acc.Complete := inferInstanceAs (Decidable (∀ _ ∈ _, _))

/-- The account with one more deposit accepted. -/
def keep (acc : Account D) (h : Handle) (value : D) : Account D :=
  { acc with held := acc.held ++ [(h, value)] }

/-- The account at the start of the next cycle. -/
def start (acc : Account D) : Account D := ⟨acc.out, acc.number + 1, acc.out, []⟩

/-- The account after one more sight. -/
def next (acc : Account D) : Sight P D → Account D
  | .call e => if e.opens then acc.start else { acc with out := e.handlesAfter acc.out }
  | .attempt a => { acc with held := acc.held ++ a.deposit?.toList }

/-- The account after some sights. -/
def after (acc : Account D) (seen : List (Sight P D)) : Account D := seen.foldl next acc

/-- What the owner may hear when a cycle has been opened or a deposit accepted: of the completion,
if every handle has deposited. -/
structure Ends (label : BoxLabel) (acc : Account D) (done : Option (Completion D)) : Prop where
  /-- it hears of one exactly then -/
  isSome : done.isSome ↔ acc.Complete
  /-- what is delivered is what was deposited -/
  delivers : ∀ c ∈ done, c.label = label ∧ c.cycle = acc.number ∧
    Delivers acc.awaited acc.held c.deposits

/-- The ways in which an attempt to deposit may go. -/
inductive Grants (label : BoxLabel) (acc : Account D) : Attempt D → Prop where
  /-- it is refused at the first look; for a handle that is out and was awaited, that is since it
  has deposited -/
  | refused {h : Handle} {value : D} {r : Refusal}
      (unspoken : ∀ label cycle, r ≠ .cycleExhausted label cycle)
      (spent : h ∈ acc.out → h ∈ acc.awaited →
        acc.Spent h ∧ r = .doubleUse label h.task acc.number) :
      Grants label acc ⟨h, value, none, .error r, none⟩
  /-- its check refuses it -/
  | rejected {h : Handle} {value : D} {r : Refusal} :
      Grants label acc ⟨h, value, some (.error r), .error r, none⟩
  /-- its check lets it pass, but the handle has deposited -/
  | beaten {h : Handle} {value : D} (spent : acc.Spent h) :
      Grants label acc
        ⟨h, value, some (.ok ()), .error (.doubleUse label h.task acc.number), none⟩
  /-- it is accepted -/
  | accepted {h : Handle} {value : D} {done : Option (Completion D)} (awaited : h ∈ acc.awaited)
      (fresh : ¬ acc.Spent h) (ends : Ends label (acc.keep h value) done) :
      Grants label acc ⟨h, value, some (.ok ()), .ok (), done⟩

/-- What may be seen next. -/
def Allows (label : BoxLabel) (acc : Account D) : Sight P D → Prop
  | .call e => (∀ label cycle, e.outcome ≠ .error (.cycleExhausted label cycle)) ∧
      if e.opens then e.outcome = .ok (.cycle (acc.number + 1)) ∧ Ends label acc.start e.completion
      else e.completion = none
  | .attempt a => Grants label acc a

/-- Everything that is seen from an account on is what may be seen. -/
def Accords (label : BoxLabel) : Account D → List (Sight P D) → Prop
  | _, [] => True
  | acc, s :: later => acc.Allows label s ∧ Accords label (acc.next s) later

variable {label : BoxLabel} {seen more : List (Sight P D)}

theorem after_append (acc : Account D) (seen more : List (Sight P D)) :
    acc.after (seen ++ more) = (acc.after seen).after more := List.foldl_append

theorem accords_append :
    acc.Accords label (seen ++ more) ↔
      acc.Accords label seen ∧ (acc.after seen).Accords label more := by
  induction seen generalizing acc with
  | nil => exact ⟨fun h => ⟨trivial, h⟩, And.right⟩
  | cons s seen ih =>
    rw [List.cons_append, Accords, Accords, ih, and_assoc]
    rfl

/-- Attempts add deposits to an account and change nothing else. -/
theorem after_attempts (acc : Account D) (attempts : List (Attempt D)) :
    ∃ held, acc.after (attempts.map .attempt : List (Sight P D)) = { acc with held } := by
  induction attempts generalizing acc with
  | nil => exact ⟨acc.held, rfl⟩
  | cons a attempts ih =>
    obtain ⟨held, hheld⟩ := ih (acc.next (.attempt a : Sight P D))
    exact ⟨held, hheld⟩

/-- One handle more has deposited. -/
theorem spent_keep {h g : Handle} {value : D} :
    (acc.keep h value).Spent g ↔ acc.Spent g ∨ g = h := by
  simp [Spent, keep]

/-- Everybody has deposited exactly if as many have as were awaited. -/
theorem complete_iff (acc : Account D) (nodup : acc.awaited.Nodup)
    (distinct : (acc.held.map Prod.fst).Nodup) (admits : ∀ h, acc.Spent h → h ∈ acc.awaited) :
    acc.Complete ↔ acc.held.length = acc.awaited.length := by
  constructor
  · intro hall
    have hle := (List.subperm_of_subset nodup hall).length_le
    have hge := (List.subperm_of_subset distinct admits).length_le
    rw [List.length_map] at hle hge
    exact Nat.le_antisymm hge hle
  · exact fun hlength => subset_of_length distinct admits hlength

/-- A completion that lists the deposits when as many have come as were awaited is what the owner
may hear. -/
theorem ends_listing (acc : Account D) (label : BoxLabel) (retrievals : Nat)
    (nodup : acc.awaited.Nodup) (distinct : (acc.held.map Prod.fst).Nodup)
    (admits : ∀ h, acc.Spent h → h ∈ acc.awaited) :
    acc.Ends label (if acc.held.length = acc.awaited.length then
      some ⟨label, acc.number, listing acc.awaited acc.held, retrievals⟩ else none) := by
  have hcomplete := acc.complete_iff nodup distinct admits
  by_cases hall : acc.held.length = acc.awaited.length
  · rw [if_pos hall]
    refine ⟨⟨fun _ => hcomplete.mpr hall, fun _ => rfl⟩, fun c hc => ?_⟩
    obtain rfl := Option.some.inj hc
    exact ⟨rfl, rfl, delivers_listing (hcomplete.mpr hall)⟩
  · rw [if_neg hall]
    exact ⟨⟨nofun, fun hc => absurd (hcomplete.mp hc) hall⟩, nofun⟩

end Account

/-! ## Reading the account of a cycle -/

/-- An event that starts a cycle leaves the same handles out. -/
theorem Event.handlesAfter_of_opens {e : Event P D} (hopens : e.opens) (out : List Handle) :
    e.handlesAfter out = out := by
  obtain ⟨call, outcome, completion⟩ := e
  cases call <;> cases outcome <;> first | rfl | cases hopens

namespace Account

variable {label : BoxLabel} {acc acc' : Account D}

/-- Deposits were accepted through different handles that were awaited. -/
structure Sound (acc : Account D) : Prop where
  /-- no handle deposited twice -/
  distinct : (acc.held.map Prod.fst).Nodup
  /-- every handle that deposited was awaited -/
  admits : ∀ h, acc.Spent h → h ∈ acc.awaited

/-- What may be seen next within a cycle: no deposit is accepted and nothing completes, or a handle
deposits that was awaited and has not. -/
theorem allows_cases {s : Sight P D} (hs : acc.Allows label s) (hopens : ¬ s.opens) :
    (s.deposit? = none ∧ s.completion = none ∧ ∃ out, acc.next s = { acc with out }) ∨
    ∃ h value, s.deposit? = some (h, value) ∧ acc.next s = acc.keep h value ∧
      h ∈ acc.awaited ∧ ¬ acc.Spent h ∧ (acc.keep h value).Ends label s.completion := by
  cases s with
  | call e =>
    obtain ⟨-, hnone⟩ := hs
    replace hopens : ¬ e.opens := hopens
    rw [if_neg hopens] at hnone
    exact .inl ⟨rfl, hnone, _, if_neg hopens⟩
  | attempt a =>
    cases hs with
    | accepted awaited fresh ends => exact .inr ⟨_, _, rfl, rfl, awaited, fresh, ends⟩
    | _ =>
      refine .inl ⟨rfl, rfl, acc.out, ?_⟩
      exact congrArg (fun held => { acc with held }) (List.append_nil _)

/-- What an account comes to within a cycle. -/
structure Elapses (label : BoxLabel) (acc : Account D) (seen : List (Sight P D))
    (acc' : Account D) : Prop where
  /-- it is the same cycle -/
  number : acc'.number = acc.number
  /-- the same handles are awaited -/
  awaited : acc'.awaited = acc.awaited
  /-- the deposits accepted meanwhile have been added -/
  held : acc'.held = acc.held ++ deposited seen
  /-- no handle deposits twice -/
  sound : acc.Sound → acc'.Sound
  /-- the owner hears of one completion when everybody has deposited, and of none otherwise -/
  fires : (announced seen).length + (if acc.Complete then 1 else 0) =
    if acc'.Complete then 1 else 0
  /-- what is delivered is what was deposited -/
  delivers : ∀ c ∈ announced seen, c.label = label ∧ c.cycle = acc'.number ∧
    Delivers acc'.awaited acc'.held c.deposits

theorem Elapses.refl (label : BoxLabel) (acc : Account D) :
    Elapses (P := P) label acc [] acc where
  number := rfl
  awaited := rfl
  held := (List.append_nil _).symm
  sound := id
  fires := Nat.zero_add _
  delivers := nofun

theorem Elapses.trans {acc'' : Account D} {seen more : List (Sight P D)}
    (hseen : Elapses label acc seen acc') (hmore : Elapses label acc' more acc'') :
    Elapses label acc (seen ++ more) acc'' where
  number := hmore.number.trans hseen.number
  awaited := hmore.awaited.trans hseen.awaited
  held := by
    rw [hmore.held, hseen.held, List.append_assoc, deposited, deposited, deposited,
      List.filterMap_append]
  sound := hmore.sound ∘ hseen.sound
  fires := by
    have hfirst := hseen.fires
    have hthen := hmore.fires
    rw [announced, List.filterMap_append, List.length_append, ← announced, ← announced]
    omega
  delivers := by
    intro c hc
    rw [announced, List.filterMap_append, List.mem_append] at hc
    rcases hc with hc | hc
    · obtain ⟨hlabel, hcycle, hdelivers⟩ := hseen.delivers c hc
      rw [hmore.number, hmore.awaited, hmore.held]
      exact ⟨hlabel, hcycle, hdelivers.mono⟩
    · exact hmore.delivers c hc

/-- One sight within a cycle. -/
theorem elapses_next {s : Sight P D} (hs : acc.Allows label s) (hopens : ¬ s.opens) :
    Elapses label acc [s] (acc.next s) := by
  rcases allows_cases hs hopens with ⟨hdeposit, hnone, out, hnext⟩ |
    ⟨h, value, hdeposit, hnext, hawaited, hfresh, hends⟩
  · rw [hnext]
    refine ⟨rfl, rfl, ?_, fun hsound => ⟨hsound.distinct, hsound.admits⟩, ?_, ?_⟩
    · simp [deposited, hdeposit]
    · have hnil : announced [s] = [] := by simp [announced, hnone]
      rw [hnil]
      exact Nat.zero_add _
    · simp [announced, hnone]
  · rw [hnext]
    have hincomplete : ¬ acc.Complete := fun hall => hfresh (hall h hawaited)
    refine ⟨rfl, rfl, ?_, fun hsound => ⟨?_, ?_⟩, ?_, ?_⟩
    · simp [deposited, hdeposit, keep]
    · rw [keep, List.map_append]
      refine List.nodup_append.mpr ⟨hsound.distinct, List.nodup_singleton _, ?_⟩
      rintro a ha c hc rfl
      obtain rfl : a = h := List.mem_singleton.mp hc
      exact hfresh ha
    · intro g hg
      rcases spent_keep.mp hg with hg | rfl
      · exact hsound.admits g hg
      · exact hawaited
    · have hfires := hends.isSome
      rw [if_neg hincomplete, announced]
      cases hdone : s.completion with
      | none =>
        rw [hdone] at hfires
        rw [if_neg fun hall => Bool.false_ne_true (hfires.mpr hall)]
        simp [hdone]
      | some c =>
        rw [hdone] at hfires
        rw [if_pos (hfires.mp rfl)]
        simp [hdone]
    · intro c hc
      refine hends.delivers c ?_
      rw [announced, List.mem_filterMap] at hc
      obtain ⟨s', hs', hc⟩ := hc
      rwa [List.mem_singleton.mp hs'] at hc

/-- **All that is seen within a cycle**, one sight after the other. -/
theorem elapses_after {seen : List (Sight P D)} (hseen : acc.Accords label seen)
    (hopens : ∀ s ∈ seen, ¬ s.opens) : Elapses label acc seen (acc.after seen) := by
  induction seen generalizing acc with
  | nil => exact Elapses.refl label acc
  | cons s seen ih =>
    rw [List.forall_mem_cons] at hopens
    exact (elapses_next hseen.1 hopens.1).trans (ih hseen.2 hopens.2)

/-- The handles that are out are those that the calls among the sights tell of. -/
theorem out_after (acc : Account D) (seen : List (Sight P D)) :
    (acc.after seen).out = (seen.filterMap Sight.call?).foldl Event.handlesAfter acc.out := by
  induction seen generalizing acc with
  | nil => rfl
  | cons s seen ih =>
    refine (ih (acc.next s)).trans ?_
    cases s with
    | attempt a => rfl
    | call e =>
      have hout : (acc.next (.call e)).out = e.handlesAfter acc.out := by
        by_cases hopens : e.opens
        · rw [next, if_pos hopens, Event.handlesAfter_of_opens hopens]
          rfl
        · rw [next, if_neg hopens]
      rw [hout]
      rfl

/-- Without a change of registrations the same handles stay out. -/
theorem out_after_of_not_registers {seen : List (Sight P D)} (hsteady : ∀ s ∈ seen, ¬ s.registers)
    (acc : Account D) : (acc.after seen).out = acc.out := by
  rw [out_after]
  induction seen with
  | nil => rfl
  | cons s seen ih =>
    rw [List.forall_mem_cons] at hsteady
    cases s with
    | attempt a => exact ih hsteady.2
    | call e =>
      have hsame : e.handlesAfter acc.out = acc.out :=
        Event.handlesAfter_of_not_registers hsteady.1 acc.out
      change (seen.filterMap Sight.call?).foldl Event.handlesAfter (e.handlesAfter acc.out) =
        acc.out
      rw [hsame]
      exact ih hsteady.2

/-- What an attempt through a handle returns that is out and was awaited. -/
theorem Grants.answer {a : Attempt D} (h : acc.Grants label a) (hout : a.handle ∈ acc.out)
    (hawaited : a.handle ∈ acc.awaited) : a.outcome =
      match a.verdict with
      | some (.error r) => .error r
      | _ => if acc.Spent a.handle then .error (.doubleUse label a.handle.task acc.number)
        else .ok () := by
  cases h with
  | refused unspoken spent =>
    obtain ⟨hspent, rfl⟩ := spent hout hawaited
    exact (if_pos hspent).symm
  | rejected => rfl
  | beaten spent => exact (if_pos spent).symm
  | accepted awaited fresh ends => exact (if_neg fresh).symm

/-- Nobody but a check speaks of an exhausted cycle. -/
theorem Allows.not_exhausted {s : Sight P D} (hs : acc.Allows label s) : ¬ s.Exhausted := by
  cases s with
  | call e =>
    rintro ⟨l, n, hexhausted⟩
    exact hs.1 l n hexhausted
  | attempt a =>
    rintro ⟨l, n, hexhausted, hverdict⟩
    cases hs with
    | refused unspoken spent => exact unspoken l n (Except.error.inj hexhausted)
    | rejected => exact hverdict rfl
    | beaten spent => cases hexhausted
    | accepted awaited fresh ends => cases hexhausted

end Account

end Box

end PatchDynamics
