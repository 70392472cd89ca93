import Mathlib.Data.List.DropRight
import PatchDynamics.Proofs.Aggregator.Delivery

/-!
# What an aggregator remembers of its deliveries

An aggregator must not start a frame of a number that it has delivered. It does not keep all
delivered numbers for that, but the last `history` of them and the largest of the others. The main
statement, `log_exact`, compares it with the list of all deliveries, which is read off the answers:

* the numbers remembered are the last ones of the list, and the horizon is the maximum of the rest;
* a slice is refused for its number exactly if no frame of the number is under way and the list puts
  it among the last ones, or not past the maximum of the rest;
* a number that was refused stays refused, whatever happens to move between window and horizon;
* a frame under way is completed by its slices, however far the horizon has moved meanwhile.
-/

namespace PatchDynamics

/-! ## The log of a list of deliveries -/

namespace DeliveryLog

/-- What is kept of the numbers delivered: the last ones, and the largest of the others. -/
def ofDeliveries (history : Nat) (deliveries : List Nat) : DeliveryLog :=
  ⟨deliveries.rtake history, (deliveries.rdrop history).max?⟩

/-- The maximum moves with one more number as the horizon does. -/
theorem max?_concat (numbers : List Nat) (last : Nat) :
    (numbers ++ [last]).max? = some (match numbers.max? with
      | none => last
      | some h => max h last) := by
  cases hmax : numbers.max? with
  | none =>
    rw [List.max?_eq_none_iff.mp hmax]
    rfl
  | some h =>
    obtain ⟨hmem, hle⟩ := List.max?_eq_some_iff.mp hmax
    dsimp only
    refine List.max?_eq_some_iff.mpr ⟨?_, fun n hn => ?_⟩
    · rcases Nat.le_total h last with hlast | hlast
      · rw [Nat.max_eq_right hlast]
        exact List.mem_append_right _ (List.mem_singleton.mpr rfl)
      · rw [Nat.max_eq_left hlast]
        exact List.mem_append_left _ hmem
    · rcases List.mem_append.mp hn with hn | hn
      · exact (hle n hn).trans (Nat.le_max_left ..)
      · rw [List.mem_singleton.mp hn]
        exact Nat.le_max_right ..

/-- Forgetting moves all numbers but the last ones behind the horizon. -/
theorem forget_eq (history : Nat) (recent forgotten : List Nat) :
    forget history recent forgotten.max? =
      ⟨recent.rtake history, (forgotten ++ recent.rdrop history).max?⟩ := by
  induction recent generalizing forgotten with
  | nil => simp [forget]
  | cons old rest ih =>
    rw [forget.eq_def]
    dsimp only
    split
    · next hlong =>
      -- one number more is forgotten, and as many of the rest as before
      have hnext := ih (forgotten ++ [old])
      rw [max?_concat] at hnext
      have hshift : rest.length + 1 - history = rest.length - history + 1 := by omega
      refine hnext.trans ?_
      rw [List.rtake, List.rtake, List.rdrop, List.rdrop, List.length_cons, hshift,
        List.drop_succ_cons, List.take_succ_cons, List.append_assoc, List.singleton_append]
    · next hshort =>
      have hall : rest.length + 1 - history = 0 := by omega
      rw [List.rtake, List.rdrop, List.length_cons, hall, List.drop_zero, List.take_zero,
        List.append_nil]

/-- **One more delivery** makes the log that of one delivery more. -/
theorem mark_ofDeliveries (history seq : Nat) (deliveries : List Nat) :
    (ofDeliveries history deliveries).mark history seq =
      ofDeliveries history (deliveries ++ [seq]) := by
  have hsplit : deliveries.rdrop history ++ deliveries.rtake history = deliveries :=
    List.take_append_drop ..
  have hroom : deliveries.rdrop history = [] ∨
      history ≤ (deliveries.rtake history ++ [seq]).length := by
    rw [List.rdrop, List.rtake, List.take_eq_nil_iff, List.length_append, List.length_drop,
      List.length_singleton]
    omega
  rw [mark, ofDeliveries, forget_eq, ofDeliveries]
  generalize deliveries.rdrop history = forgotten at hsplit hroom ⊢
  generalize deliveries.rtake history = recent at hsplit hroom ⊢
  subst hsplit
  rcases hroom with rfl | hfull
  · rfl
  · -- the window with the new number is long enough, so only the window is cut
    rw [List.append_assoc, List.rdrop_append_of_le_length history hfull,
      List.rtake_eq_reverse_take_reverse, List.rtake_eq_reverse_take_reverse,
      @List.reverse_append _ forgotten, List.take_append_of_le_length (by simpa using hfull)]

theorem length_recent_le (history : Nat) (deliveries : List Nat) :
    (ofDeliveries history deliveries).recent.length ≤ history := by
  rw [ofDeliveries, List.rtake, List.length_drop]
  omega

/-- The horizon does not fall when more is delivered. -/
theorem horizon_mono {history : Nat} {deliveries more : List Nat} {h : Nat}
    (hh : (ofDeliveries history deliveries).horizon = some h) :
    ∃ h', (ofDeliveries history (deliveries ++ more)).horizon = some h' ∧ h ≤ h' := by
  obtain ⟨hmem, -⟩ := List.max?_eq_some_iff.mp hh
  have hmore : h ∈ (deliveries ++ more).rdrop history := by
    have hpre : deliveries.rdrop history =
        ((deliveries ++ more).rdrop history).take (deliveries.length - history) := by
      rw [List.rdrop, List.rdrop, List.take_take, List.length_append,
        Nat.min_eq_left (by omega), List.take_append_of_le_length (by omega)]
    exact List.mem_of_mem_take (hpre ▸ hmem)
  cases hmax : ((deliveries ++ more).rdrop history).max? with
  | none =>
    rw [List.max?_eq_none_iff.mp hmax] at hmore
    cases hmore
  | some h' => exact ⟨h', hmax, (List.max?_eq_some_iff.mp hmax).2 h hmore⟩

end DeliveryLog

namespace Aggregator

/-! ## Deliveries and refusals, by the answers -/

/-- The numbers delivered, in the order of delivery. -/
def deliveries (events : List Event) : List Nat := (events.filterMap Event.frame?).map Frame.seq

/-- The slices of a number that have one value for each particle. -/
def matched (seq : Nat) (slices : List Slice) : List Slice :=
  slices.filter fun s => s.seq = seq ∧ s.ids.length = s.values.length

/-- Whether a number must not start a frame, by the list of all deliveries. -/
def Late (history : Nat) (deliveries : List Nat) (seq : Nat) : Prop :=
  seq ∈ deliveries.rtake history ∨ ∃ h, (deliveries.rdrop history).max? = some h ∧ seq ≤ h

/-- The answer to a slice according to the answers before it. -/
structure Judged (name : String) (history : Nat) (events : List Event) (s : Slice)
    (outcome : Except Refusal (Option Frame)) : Prop where
  /-- a slice without one value for each particle is refused, whatever its number -/
  mismatched : s.ids.length ≠ s.values.length →
    outcome = .error (.mismatch s.seq s.ids.length s.values.length)
  /-- any other slice is refused exactly if it would start a frame that is late -/
  refused : s.ids.length = s.values.length → ((∃ r, outcome = .error r) ↔
    s.seq ∉ underWay events ∧ Late history (deliveries events) s.seq)
  /-- it is told that the number was delivered, as long as that is remembered -/
  remembered : s.ids.length = s.values.length → s.seq ∉ underWay events →
    s.seq ∈ (deliveries events).rtake history → outcome = .error (.alreadyDelivered name s.seq)
  /-- and otherwise that the number is behind the horizon -/
  forgotten : s.ids.length = s.values.length → s.seq ∉ underWay events →
    s.seq ∉ (deliveries events).rtake history →
    ∀ h, ((deliveries events).rdrop history).max? = some h → s.seq ≤ h →
      outcome = .error (.expired name s.seq h)

theorem deliveries_append (events more : List Event) :
    deliveries (events ++ more) = deliveries events ++ deliveries more := by
  rw [deliveries, List.filterMap_append, List.map_append]
  rfl

/-! ## The answer to one slice -/

variable {a : Aggregator} {s : Slice} {events : List Event} {r : Refusal}

theorem hand_of_mismatch (hne : s.ids.length ≠ s.values.length) :
    a.hand s = (.error (.mismatch s.seq s.ids.length s.values.length), a) := by
  rw [hand, submit, if_pos hne]

theorem hand_of_pending {p : PendingFrame} (heq : s.ids.length = s.values.length)
    (pending : a.pending? s.seq = some p) : ∃ frame, (a.hand s).1 = .ok frame := by
  rw [hand, submit, if_neg (not_not_intro heq), pending]
  exact ⟨_, rfl⟩

theorem hand_of_late (heq : s.ids.length = s.values.length) (pending : a.pending? s.seq = none)
    (late : a.checkLate s.seq = .error r) : a.hand s = (.error r, a) := by
  rw [hand, submit, if_neg (not_not_intro heq), pending]
  simp only [late]

theorem hand_of_timely (heq : s.ids.length = s.values.length) (pending : a.pending? s.seq = none)
    (timely : a.checkLate s.seq = .ok ()) : ∃ frame, (a.hand s).1 = .ok frame := by
  rw [hand, submit, if_neg (not_not_intro heq), pending]
  simp only [timely]
  exact ⟨_, rfl⟩

/-- A slice that is refused changes nothing. -/
theorem hand_eq_self (h : (a.hand s).1 = .error r) : (a.hand s).2 = a := by
  have hall := handed a s
  generalize a.hand s = result at h hall
  cases hall with
  | refused => rfl
  | continued => cases h
  | finished => cases h
  | started => cases h
  | passed => cases h

theorem checkLate_of_recent {seq : Nat} (hmem : seq ∈ a.delivered.recent) :
    a.checkLate seq = .error (.alreadyDelivered a.name seq) := by
  rw [checkLate, if_pos hmem]

theorem checkLate_of_horizon {seq h : Nat} (hmem : seq ∉ a.delivered.recent)
    (hh : a.delivered.horizon = some h) (hle : seq ≤ h) :
    a.checkLate seq = .error (.expired a.name seq h) := by
  rw [checkLate, if_neg hmem, hh]
  exact if_pos hle

/-- A number is late exactly if it is barred. -/
theorem checkLate_error_iff {seq : Nat} :
    (∃ r, a.checkLate seq = .error r) ↔ a.delivered.Bars seq := by
  constructor
  · rintro ⟨r, hr⟩
    by_contra hbars
    have hrecent : seq ∉ a.delivered.recent := fun hmem => hbars (.inl hmem)
    rw [checkLate, if_neg hrecent] at hr
    split at hr
    · cases hr
    · next h hh => rw [if_neg fun hle => hbars (.inr ⟨h, hh, hle⟩)] at hr; cases hr
  · intro hbars
    by_cases hmem : seq ∈ a.delivered.recent
    · exact ⟨_, checkLate_of_recent hmem⟩
    · obtain ⟨h, hh, hle⟩ := hbars.resolve_left hmem
      exact ⟨_, checkLate_of_horizon hmem hh hle⟩

/-- A slice with one value for each particle is refused exactly if no frame of its number is under
way and the number is barred. -/
theorem hand_error_iff (heq : s.ids.length = s.values.length) :
    (∃ r, (a.hand s).1 = .error r) ↔ a.pending? s.seq = none ∧ a.delivered.Bars s.seq := by
  rw [← checkLate_error_iff]
  cases hpending : a.pending? s.seq with
  | some p =>
    obtain ⟨frame, hframe⟩ := hand_of_pending heq hpending
    rw [hframe]
    exact iff_of_false nofun nofun
  | none =>
    rcases hlate : a.checkLate s.seq with r | _
    · rw [hand_of_late heq hpending hlate]
      exact iff_of_true ⟨r, rfl⟩ ⟨rfl, r, rfl⟩
    · obtain ⟨frame, hframe⟩ := hand_of_timely heq hpending hlate
      rw [hframe]
      exact iff_of_false nofun nofun

/-! ## The log and the list -/

/-- The log of the aggregator is that of the deliveries in its answers. -/
structure Remembers (name : String) (history : Nat) (a : Aggregator) (events : List Event) : Prop
    where
  /-- the aggregator keeps its name -/
  named : a.name = name
  /-- it remembers as many numbers as at first -/
  spanning : a.history = history
  /-- it remembers the deliveries -/
  delivered : a.delivered = DeliveryLog.ofDeliveries history (deliveries events)

namespace Remembers

variable {name : String} {history : Nat}

theorem new (name : String) (expected history : Nat) :
    Remembers name history (new name expected history) [] := by
  refine ⟨rfl, rfl, ?_⟩
  simp [Aggregator.new, DeliveryLog.empty, DeliveryLog.ofDeliveries, deliveries]

/-- An answer that brings no frame leaves the list of deliveries as it is. -/
theorem quiet (h : Remembers name history a events) {b : Aggregator} {e : Event}
    (hname : b.name = a.name) (hhistory : b.history = a.history)
    (hdelivered : b.delivered = a.delivered) (hframe : e.frame? = none) :
    Remembers name history b (events ++ [e]) := by
  refine ⟨hname.trans h.named, hhistory.trans h.spanning, ?_⟩
  rw [hdelivered, h.delivered, deliveries_append]
  simp [deliveries, hframe]

/-- A frame that is delivered puts its number at the end of the list. -/
theorem delivers (h : Remembers name history a events) {b : Aggregator} {e : Event} {frame : Frame}
    {seq : Nat} (hname : b.name = a.name) (hhistory : b.history = a.history)
    (hdelivered : b.delivered = (a.markDelivered seq).delivered) (hframe : e.frame? = some frame)
    (hseq : frame.seq = seq) : Remembers name history b (events ++ [e]) := by
  refine ⟨hname.trans h.named, hhistory.trans h.spanning, ?_⟩
  rw [hdelivered, markDelivered, h.spanning, h.delivered, DeliveryLog.mark_ofDeliveries,
    deliveries_append]
  simp [deliveries, hframe, hseq]

/-- **One slice keeps the log.** -/
theorem hand (h : Remembers name history a events) (s : Slice) :
    Remembers name history (a.hand s).2 (events ++ [a.event s]) := by
  have hall := handed a s
  rw [event]
  generalize a.hand s = result at hall
  cases hall with
  | refused => exact h.quiet rfl rfl rfl rfl
  | continued => exact h.quiet rfl rfl rfl rfl
  | started => exact h.quiet rfl rfl rfl rfl
  | finished pending => exact h.delivers rfl rfl rfl rfl (seq_of_lookup pending)
  | passed => exact h.delivers rfl rfl rfl rfl rfl

/-- A run of slices keeps the log. -/
theorem after (h : Remembers name history a events) (slices : List Slice) :
    Remembers name history (a.after slices) (events ++ a.answers slices) := by
  induction slices generalizing a events with
  | nil => exact (List.append_nil events).symm ▸ h
  | cons s slices ih =>
    have hnext := ih (h.hand s)
    rw [List.append_assoc] at hnext
    exact hnext

theorem bars_iff (h : Remembers name history a events) {seq : Nat} :
    a.delivered.Bars seq ↔ Late history (deliveries events) seq := by
  rw [h.delivered]
  exact Iff.rfl

/-- **The answer to a slice** is what the list of deliveries asks for. -/
theorem judged (h : Remembers name history a events) (hagrees : a.Agrees events) (s : Slice) :
    Judged name history events s (a.hand s).1 := by
  have hpending : a.pending? s.seq = none ↔ s.seq ∉ underWay events := by
    rw [mem_underWay, ← (hagrees.status s.seq).held_iff, ne_eq, not_not]
  refine ⟨fun hne => ?_, fun heq => ?_, fun heq hnot hmem => ?_, fun heq hnot hmem m hm hle => ?_⟩
  · rw [hand_of_mismatch hne]
  · rw [hand_error_iff heq, hpending, h.bars_iff]
  · have hrecent : s.seq ∈ a.delivered.recent := by
      rw [h.delivered]
      exact hmem
    rw [hand_of_late heq (hpending.mpr hnot) (checkLate_of_recent hrecent), h.named]
  · have hrecent : s.seq ∉ a.delivered.recent := by
      rw [h.delivered]
      exact hmem
    have hhorizon : a.delivered.horizon = some m := by
      rw [h.delivered]
      exact hm
    rw [hand_of_late heq (hpending.mpr hnot) (checkLate_of_horizon hrecent hhorizon hle), h.named]

end Remembers

/-! ## Refused for good -/

/-- The number has no frame under way and may not start one. -/
structure Shut (seq : Nat) (a : Aggregator) : Prop where
  /-- no frame is under way -/
  vacant : a.pending? seq = none
  /-- none may be started -/
  barred : a.delivered.Bars seq

namespace Shut

variable {seq : Nat}

/-- A slice of whatever number leaves a number shut. -/
theorem hand (h : Shut seq a) (s : Slice) : Shut seq (a.hand s).2 := by
  have hall := handed a s
  generalize a.hand s = result at hall
  -- a slice that is accepted is not of the number
  cases hall with
  | refused => exact h
  | @continued p pending more =>
    have hne : p.frame.seq ≠ seq := by
      intro heq
      rw [← seq_of_lookup pending, heq, h.vacant] at pending
      cases pending
    exact ⟨(lookup_replace_of_ne (p := ⟨p.frame.append s.ids s.values, _⟩) hne).trans h.vacant,
      h.barred⟩
  | finished pending last =>
    have hne : s.seq ≠ seq := by
      rintro rfl
      rw [h.vacant] at pending
      cases pending
    exact ⟨(lookup_without_of_ne hne).trans h.vacant,
      DeliveryLog.bars_mark a.history s.seq h.barred⟩
  | started pending fresh more =>
    have hne : s.seq ≠ seq := by
      rintro rfl
      exact fresh h.barred
    exact ⟨(lookup_append_of_ne (p := ⟨assembled s [s], _⟩) hne).trans h.vacant, h.barred⟩
  | passed pending fresh last =>
    exact ⟨h.vacant, DeliveryLog.bars_mark a.history s.seq h.barred⟩

theorem after (h : Shut seq a) (slices : List Slice) : Shut seq (a.after slices) := by
  induction slices generalizing a with
  | nil => exact h
  | cons s slices ih => exact ih (h.hand s)

/-- Every slice of the number is refused. -/
theorem refuses (h : Shut s.seq a) : ∃ r, (a.hand s).1 = .error r := by
  by_cases heq : s.ids.length = s.values.length
  · exact (hand_error_iff heq).mpr ⟨h.vacant, h.barred⟩
  · exact ⟨_, congrArg Prod.fst (hand_of_mismatch heq)⟩

end Shut

/-! ## Under way for good -/

/-- While a number is under way, its slices are accepted, late or not. -/
theorem Agrees.accepts (h : a.Agrees events) (hway : s.seq ∈ underWay events)
    (heq : s.ids.length = s.values.length) : ∃ frame, (a.hand s).1 = .ok frame := by
  have hheld := (h.status s.seq).held_iff.mpr (mem_underWay.mp hway)
  obtain ⟨p, hp⟩ := Option.ne_none_iff_exists'.mp hheld
  exact hand_of_pending heq hp

/-- An answer without a frame leaves a number under way. -/
theorem underWay_append {seq : Nat} {more : List Event} (hway : seq ∈ underWay events)
    (hframes : frames seq more = []) : seq ∈ underWay (events ++ more) := by
  rw [mem_underWay] at hway ⊢
  rw [accepted_append, frames_append, hway.2, hframes]
  exact ⟨List.append_ne_nil_of_left_ne_nil hway.1 _, rfl⟩

theorem matched_cons (seq : Nat) (s : Slice) (slices : List Slice) :
    matched seq (s :: slices) = matched seq [s] ++ matched seq slices :=
  List.filter_append [s] slices

theorem accepted_answers_cons (a : Aggregator) (seq : Nat) (s : Slice) (slices : List Slice) :
    accepted seq (a.answers (s :: slices)) =
      accepted seq [a.event s] ++ accepted seq ((a.hand s).2.answers slices) :=
  accepted_append seq [a.event s] _

/-- A slice that is accepted has one value for each particle. -/
theorem accepted_event_of_ok {frame : Option Frame} (h : (a.hand s).1 = .ok frame) (seq : Nat) :
    accepted seq [a.event s] = matched seq [s] := by
  have heq : s.ids.length = s.values.length := by
    by_contra hne
    rw [hand_of_mismatch hne] at h
    cases h
  rw [event, h, matched, accepted]
  refine List.filter_congr fun t ht => ?_
  rw [List.mem_singleton.mp ht]
  simp [heq]

theorem accepted_event_sublist (a : Aggregator) (s : Slice) (seq : Nat) :
    (accepted seq [a.event s]).Sublist (matched seq [s]) := by
  cases h : (a.hand s).1 with
  | error r =>
    rw [event, h]
    exact List.nil_sublist _
  | ok frame => rw [accepted_event_of_ok h]

/-- Of the slices that are handed in, those accepted have one value for each particle. -/
theorem accepted_answers_sublist (a : Aggregator) (seq : Nat) (slices : List Slice) :
    (accepted seq (a.answers slices)).Sublist (matched seq slices) := by
  induction slices generalizing a with
  | nil => exact .slnil
  | cons s slices ih =>
    rw [accepted_answers_cons, matched_cons]
    exact (accepted_event_sublist a s seq).append (ih (a.hand s).2)

/-- As long as no frame is delivered, a number under way has all its slices accepted. -/
theorem Agrees.accepted_eq_matched (h : a.Agrees events) {seq : Nat}
    (hway : seq ∈ underWay events) {slices : List Slice}
    (hframes : frames seq (a.answers slices) = []) :
    Aggregator.accepted seq (a.answers slices) = matched seq slices := by
  induction slices generalizing a events with
  | nil => rfl
  | cons s slices ih =>
    obtain ⟨hfirst, hrest⟩ := List.append_eq_nil_iff.mp
      ((frames_append seq [a.event s] _).symm.trans hframes)
    rw [accepted_answers_cons, matched_cons,
      ih (h.handed (Aggregator.handed a s)) (underWay_append hway hfirst) hrest]
    congr 1
    by_cases hmatched : s.seq = seq ∧ s.ids.length = s.values.length
    · obtain ⟨rfl, heq⟩ := hmatched
      obtain ⟨frame, hframe⟩ := h.accepts hway heq
      exact accepted_event_of_ok hframe s.seq
    · have hnone : matched seq [s] = [] := List.filter_cons_of_neg (by simpa using hmatched)
      have hsub := accepted_event_sublist a s seq
      rw [hnone] at hsub ⊢
      exact List.sublist_nil.mp hsub

/-- **A number under way is delivered** exactly when the slices that it lacks have come. -/
theorem Agrees.delivered_iff (h : a.Agrees events) {seq : Nat} (hway : seq ∈ underWay events)
    (slices : List Slice) :
    frames seq (a.answers slices) ≠ [] ↔
      max a.expected 1 ≤ (Aggregator.accepted seq events).length + (matched seq slices).length := by
  have hend := (h.after slices).status seq
  rw [after_expected, accepted_append, frames_append, (mem_underWay.mp hway).2,
    List.nil_append] at hend
  have hresult := hend.frames_eq
  rw [List.length_append] at hresult
  constructor
  · intro hframes
    rcases hresult with ⟨-, hnone⟩ | ⟨hall, -⟩
    · exact absurd hnone hframes
    · have hle := (accepted_answers_sublist a seq slices).length_le
      omega
  · intro hcount hframes
    have hall := h.accepted_eq_matched hway hframes
    rcases hresult with ⟨hlt, -⟩ | ⟨-, first, rest, -, hone⟩
    · rw [hall] at hlt
      omega
    · rw [hframes] at hone
      cases hone

/-! ## Exactness -/

/-- **The log is as good as the list of all deliveries.** Take a new aggregator and any run of
slices. The horizon is the maximum of all deliveries but the last ones, of which no more than
`history` are remembered one by one. The next slice is answered as the list of deliveries asks for;
if it is refused, nothing changes. Whatever slices follow, the horizon does not fall; a number that
was refused is refused again; and a number that is under way has its slices accepted until the frame
is delivered, which happens exactly when those that it lacks have come. -/
theorem log_exact (name : String) (expected history : Nat) (slices : List Slice) :
    let a := (new name expected history).after slices
    let events := (new name expected history).answers slices
    a.horizon = ((deliveries events).rdrop history).max? ∧
    a.delivered.recent.length ≤ history ∧
    (∀ s, Judged name history events s (a.hand s).1) ∧
    (∀ s r, (a.hand s).1 = .error r → (a.hand s).2 = a) ∧
    (∀ more h, a.horizon = some h → ∃ h', (a.after more).horizon = some h' ∧ h ≤ h') ∧
    (∀ s r, s.ids.length = s.values.length → (a.hand s).1 = .error r →
      ∀ more t, t.seq = s.seq → ∃ r', ((a.after more).hand t).1 = .error r') ∧
    ∀ seq ∈ underWay events, ∀ more,
      (frames seq (a.answers more) = [] → ∀ s, s.seq = seq → s.ids.length = s.values.length →
        ∃ frame, ((a.after more).hand s).1 = .ok frame) ∧
      (frames seq (a.answers more) ≠ [] ↔
        max expected 1 ≤ (accepted seq events).length + (matched seq more).length) := by
  intro a events
  have hlog : Remembers name history a events := (Remembers.new name expected history).after slices
  have hagrees : a.Agrees events := agrees_after name expected history slices
  refine ⟨congrArg DeliveryLog.horizon hlog.delivered, ?_, fun s => hlog.judged hagrees s,
    fun s r hr => hand_eq_self hr, ?_, ?_, ?_⟩
  · rw [hlog.delivered]
    exact DeliveryLog.length_recent_le ..
  · intro more h hh
    rw [horizon, hlog.delivered] at hh
    rw [horizon, (hlog.after more).delivered, deliveries_append]
    exact DeliveryLog.horizon_mono hh
  · intro s r heq hr more t ht
    obtain ⟨hvacant, hbarred⟩ := (hand_error_iff heq).mp ⟨r, hr⟩
    have hshut : Shut s.seq (a.after more) := Shut.after ⟨hvacant, hbarred⟩ more
    exact Shut.refuses (ht ▸ hshut)
  · intro seq hway more
    refine ⟨fun hframes s hs heq => ?_, ?_⟩
    · subst hs
      exact (hagrees.after more).accepts (underWay_append hway hframes) heq
    · have hiff := hagrees.delivered_iff hway more
      rw [show a.expected = expected from after_expected ..] at hiff
      exact hiff

end Aggregator

end PatchDynamics
