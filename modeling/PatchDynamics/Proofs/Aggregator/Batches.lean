import PatchDynamics.Proofs.Aggregator.Horizon

/-!
# Batches

A batch has just as many slices of each of its numbers as the aggregator expects. If all goes well,
no slice of it is refused and each number gets its frame. Whether a slice is refused depends on what
was delivered of all numbers, so it takes a reason that the window and the horizon do not get in the
way: there are no more numbers than are remembered, or each number starts past all that were
delivered by then. From either it follows that

* no slice is refused, each number is delivered once, and nothing is left under way;
* `wholeFrame` — what is delivered of a number is a function of its own slices;
* `Shuffled` — if these come in another order, so do the entries of the frame.

This is `batch_exact`.
-/

namespace PatchDynamics

namespace Frame

/-- The values of a frame in single precision, whether it carries them so or has to narrow them. -/
def inSingle (f : Frame) : List SingleVec3 :=
  if f.precision.wantsSingle then f.narrowed else f.values.map Vec3.narrow

/-- Two frames with the same particles, each with the same values, in another order. A frame has the
precision of its first slice, so if slices disagree on it, the values that both frames have are
those in single precision. -/
structure Shuffled (f g : Frame) : Prop where
  /-- the number is the same -/
  seq : f.seq = g.seq
  /-- the particles are the same -/
  ids : f.ids.Perm g.ids
  /-- each has the same value in single precision -/
  narrowed : (f.ids.zip f.inSingle).Perm (g.ids.zip g.inSingle)
  /-- and in double precision, if both frames carry it or neither does -/
  values : f.precision.wantsDouble = g.precision.wantsDouble →
    (f.ids.zip f.values).Perm (g.ids.zip g.values)

end Frame

namespace Aggregator

/-! ## Batches -/

/-- The different numbers of some slices. -/
def numbered (slices : List Slice) : List Nat := (slices.map Slice.seq).dedup

/-- Slices with one value for each particle, of each number as many as expected. -/
structure Batch (expected : Nat) (slices : List Slice) : Prop where
  /-- there is one value for each particle -/
  whole : ∀ s ∈ slices, s.ids.length = s.values.length
  /-- there are as many slices of a number as expected -/
  full : ∀ s ∈ slices, (matched s.seq slices).length = expected

/-- Whether each number starts past all numbers that were delivered by then. -/
def StartsPast (a : Aggregator) (slices : List Slice) : Prop :=
  ∀ early s late, slices = early ++ s :: late → s.seq ∉ early.map Slice.seq →
    ∀ seq ∈ deliveries (a.answers early), seq < s.seq

/-- What keeps window and horizon out of the way: all numbers are remembered, or each starts past
those delivered. -/
def Timely (name : String) (expected history : Nat) (slices : List Slice) : Prop :=
  (numbered slices).length ≤ history ∨ (new name expected history).StartsPast slices

/-- The frame that some slices make up, if there are any. -/
def wholeFrame : List Slice → List Frame
  | [] => []
  | first :: rest => [assembled first (first :: rest)]

/-! ## Frames of shuffled slices -/

section Shuffled

variable {slices others : List Slice}

/-- Particles and values of slices that have one value for each particle, paired up. -/
theorem zip_flatMap {α : Type} {values : Slice → List α}
    (whole : ∀ s ∈ slices, s.ids.length = (values s).length) :
    (slices.flatMap Slice.ids).zip (slices.flatMap values) =
      slices.flatMap fun s => s.ids.zip (values s) := by
  induction slices with
  | nil => rfl
  | cons s slices ih =>
    rw [List.forall_mem_cons] at whole
    rw [List.flatMap_cons, List.flatMap_cons, List.flatMap_cons, List.zip_append whole.1,
      ih whole.2]

theorem zip_values_perm {α : Type} {values : Slice → List α} (hperm : slices.Perm others)
    (whole : ∀ s ∈ others, s.ids.length = (values s).length) :
    ((slices.flatMap Slice.ids).zip (slices.flatMap values)).Perm
      ((others.flatMap Slice.ids).zip (others.flatMap values)) := by
  rw [zip_flatMap whole, zip_flatMap fun s hs => whole s (hperm.mem_iff.mp hs)]
  exact hperm.flatMap_right _

theorem inSingle_assembled (first : Slice) (slices : List Slice) :
    (assembled first slices).inSingle = (slices.flatMap Slice.values).map Vec3.narrow := by
  rw [Frame.inSingle, assembled]
  cases first.precision <;> rfl

/-- **Slices in another order** make up a frame with its entries in another order. -/
theorem shuffled_assembled {first first' : Slice} (hperm : slices.Perm others)
    (hseq : first.seq = first'.seq) (whole : ∀ s ∈ others, s.ids.length = s.values.length) :
    (assembled first slices).Shuffled (assembled first' others) where
  seq := hseq
  ids := hperm.flatMap_right _
  narrowed := by
    rw [inSingle_assembled, inSingle_assembled, List.map_flatMap, List.map_flatMap]
    exact zip_values_perm hperm fun s hs => (whole s hs).trans (List.length_map _).symm
  values := by
    intro hsame
    change first.precision.wantsDouble = first'.precision.wantsDouble at hsame
    rw [assembled, assembled, hsame]
    dsimp only
    split
    · exact zip_values_perm hperm whole
    · rw [List.zip_nil_right, List.zip_nil_right]

end Shuffled

/-! ## Which numbers are delivered -/

section Deliveries

variable {a : Aggregator} {s : Slice} {events : List Event}

/-- A frame has the number of the slice that brings it. -/
theorem seq_of_frame {frame : Frame} (h : (a.hand s).1 = .ok (some frame)) : frame.seq = s.seq := by
  have hall := handed a s
  generalize a.hand s = result at h hall
  cases hall with
  | refused => cases h
  | continued => cases h
  | finished pending =>
    cases h
    exact seq_of_lookup pending
  | started => cases h
  | passed =>
    cases h
    rfl

/-- A number is delivered as often as it has frames. -/
theorem count_deliveries (a : Aggregator) (slices : List Slice) (seq : Nat) :
    (deliveries (a.answers slices)).count seq = (frames seq (a.answers slices)).length := by
  induction slices generalizing a with
  | nil => rfl
  | cons s slices ih =>
    have hone : (deliveries [a.event s]).count seq = (frames seq [a.event s]).length := by
      rw [event]
      rcases hresult : (a.hand s).1 with r | frame
      · rw [frames_refused]
        rfl
      · cases frame with
        | none =>
          rw [frames, List.filterMap_eq_nil_iff.mpr]
          · rfl
          · intro e he
            rw [List.mem_singleton.mp (List.mem_of_mem_filter he)]
            rfl
        | some frame =>
          have hseq := seq_of_frame hresult
          by_cases hne : s.seq = seq
          · subst hne
            rw [frames_self]
            simp [deliveries, Event.frame?, hseq]
          · rw [frames_of_ne hne]
            simp [deliveries, Event.frame?, hseq, hne]
    have hcut : a.answers (s :: slices) = [a.event s] ++ (a.hand s).2.answers slices := rfl
    rw [hcut, deliveries_append, frames_append, List.count_append, List.length_append, hone, ih]

theorem mem_deliveries {slices : List Slice} {seq : Nat} :
    seq ∈ deliveries (a.answers slices) ↔ frames seq (a.answers slices) ≠ [] := by
  rw [← List.count_pos_iff, count_deliveries, List.length_pos_iff]

/-- No number is delivered twice. -/
theorem Agrees.nodup_deliveries {slices : List Slice} {b : Aggregator}
    (h : b.Agrees (a.answers slices)) : (deliveries (a.answers slices)).Nodup := by
  refine List.nodup_iff_count_le_one.mpr fun seq => ?_
  rw [count_deliveries]
  rcases (h.status seq).frames_eq with ⟨-, hnone⟩ | ⟨-, first, rest, -, hone⟩
  · rw [hnone]
    exact Nat.zero_le _
  · rw [hone]
    exact Nat.le_refl _

/-- Where no slice is refused, all are accepted. -/
theorem accepted_of_ok {slices : List Slice}
    (h : ∀ e ∈ a.answers slices, ∃ frame, e.outcome = .ok frame) (seq : Nat) :
    accepted seq (a.answers slices) = matched seq slices := by
  induction slices generalizing a with
  | nil => rfl
  | cons s slices ih =>
    obtain ⟨⟨frame, hframe⟩, hrest⟩ := List.forall_mem_cons.mp h
    rw [accepted_answers_cons, matched_cons, accepted_event_of_ok hframe, ih hrest]

/-- What is delivered where no slice is refused is the number of a slice. -/
theorem delivered_of_ok {name : String} {expected history : Nat} {slices : List Slice}
    (hok : ∀ e ∈ (new name expected history).answers slices, ∃ frame, e.outcome = .ok frame) :
    ∀ seq ∈ deliveries ((new name expected history).answers slices),
      ∃ s ∈ slices, s.seq = seq := by
  intro seq hseq
  rcases ((agrees_after name expected history slices).status seq).frames_eq with
    ⟨-, hnone⟩ | ⟨-, first, rest, hslices, -⟩
  · exact absurd hnone (mem_deliveries.mp hseq)
  · rw [accepted_of_ok hok] at hslices
    have hmem : first ∈ matched seq slices := hslices ▸ List.mem_cons_self
    obtain ⟨hfirst, htest⟩ := List.mem_filter.mp hmem
    exact ⟨first, hfirst, (of_decide_eq_true htest).1⟩

end Deliveries

/-! ## Numbers that are not late -/

/-- As long as all deliveries are remembered, none is behind the horizon. -/
theorem not_late_of_remembered {history seq : Nat} {delivered : List Nat}
    (hall : delivered.length ≤ history) (hother : seq ∉ delivered) :
    ¬ Late history delivered seq := by
  rintro (hmem | ⟨bound, hmax, -⟩)
  · exact hother (List.mem_of_mem_drop hmem)
  · rw [List.rdrop, Nat.sub_eq_zero_of_le hall, List.take_zero] at hmax
    cases hmax

/-- A number past all deliveries is past the horizon. -/
theorem not_late_of_past {history seq : Nat} {delivered : List Nat}
    (hpast : ∀ n ∈ delivered, n < seq) : ¬ Late history delivered seq := by
  rintro (hmem | ⟨bound, hmax, hle⟩)
  · exact Nat.lt_irrefl _ (hpast seq (List.mem_of_mem_drop hmem))
  · have hbound := (List.max?_eq_some_iff.mp hmax).1
    exact Nat.not_lt_of_le hle (hpast bound (List.mem_of_mem_take hbound))

/-! ## No slice is refused -/

section Batch

variable {name : String} {expected history : Nat} {slices early late : List Slice} {s : Slice}

theorem mem_numbered {seq : Nat} : seq ∈ numbered slices ↔ ∃ s ∈ slices, s.seq = seq := by
  rw [numbered, List.mem_dedup, List.mem_map]

theorem matched_append (seq : Nat) (slices more : List Slice) :
    matched seq (slices ++ more) = matched seq slices ++ matched seq more := List.filter_append ..

theorem matched_self (heq : s.ids.length = s.values.length) : matched s.seq [s] = [s] :=
  List.filter_cons_of_pos (by simpa using heq)

/-- The slices of a number that is not in the batch. -/
theorem matched_eq_nil {seq : Nat} (h : seq ∉ numbered slices) : matched seq slices = [] :=
  List.filter_eq_nil_iff.mpr fun s hs htest =>
    h (mem_numbered.mpr ⟨s, hs, (of_decide_eq_true htest).1⟩)

namespace Batch

/-- Before the last slice of a number, not all of them have come. -/
theorem length_matched_lt (h : Batch expected slices) (hsplit : slices = early ++ s :: late) :
    (matched s.seq early).length < expected := by
  have hs : s ∈ slices := hsplit ▸ List.mem_append_right _ List.mem_cons_self
  rw [← h.full s hs, hsplit, matched_append, matched_cons, matched_self (h.whole s hs)]
  simp only [List.length_append, List.length_cons]
  omega

/-- The first slice of a number is not late. -/
theorem not_late (h : Batch expected slices) (timely : Timely name expected history slices)
    (hsplit : slices = early ++ s :: late)
    (hok : ∀ e ∈ (new name expected history).answers early, ∃ frame, e.outcome = .ok frame)
    (hfirst : matched s.seq early = []) :
    ¬ Late history (deliveries ((new name expected history).answers early)) s.seq := by
  have hbefore := delivered_of_ok hok
  have hnew : s.seq ∉ early.map Slice.seq := by
    intro hmem
    obtain ⟨t, ht, hseq⟩ := List.mem_map.mp hmem
    refine List.filter_eq_nil_iff.mp hfirst t ht ?_
    simpa [hseq] using h.whole t (hsplit ▸ List.mem_append_left _ ht)
  rcases timely with hfew | hpast
  · -- there are no more numbers than are remembered, and this is one more than were delivered
    have hother : s.seq ∉ deliveries ((new name expected history).answers early) :=
      fun hmem => hnew (List.mem_map.mpr (hbefore _ hmem))
    have hsub : s.seq :: deliveries ((new name expected history).answers early) ⊆
        numbered slices := by
      refine List.cons_subset.mpr ⟨?_, fun seq hseq => ?_⟩
      · exact mem_numbered.mpr ⟨s, hsplit ▸ List.mem_append_right _ List.mem_cons_self, rfl⟩
      · obtain ⟨t, ht, heq⟩ := hbefore seq hseq
        exact mem_numbered.mpr ⟨t, hsplit ▸ List.mem_append_left _ ht, heq⟩
    have hnodup := (agrees_after name expected history early).nodup_deliveries
    have hlength := (List.nodup_cons.mpr ⟨hother, hnodup⟩).length_le_of_subset hsub
    rw [List.length_cons] at hlength
    exact not_late_of_remembered (by omega) hother
  · exact not_late_of_past (hpast early s late hsplit hnew)

/-- **No slice of a batch is refused** if the batch is timely. -/
theorem all_ok (h : Batch expected slices) (timely : Timely name expected history slices)
    (hsplit : slices = early ++ late) :
    ∀ e ∈ (new name expected history).answers early, ∃ frame, e.outcome = .ok frame := by
  induction early using List.reverseRecOn generalizing late with
  | nil => exact fun e he => absurd he List.not_mem_nil
  | append_singleton early s ih =>
    have hsplit : slices = early ++ s :: late := by rw [hsplit, List.append_assoc]; rfl
    have hok := ih hsplit
    rw [answers_concat, List.forall_mem_append, List.forall_mem_singleton]
    refine ⟨hok, ?_⟩
    have heq := h.whole s (hsplit ▸ List.mem_append_right _ List.mem_cons_self)
    rcases hresult : (((new name expected history).after early).hand s).1 with r | frame
    · -- a slice that is refused would start a frame of a number that is barred
      exfalso
      have hagrees := agrees_after name expected history early
      have hlog := (Remembers.new name expected history).after early
      obtain ⟨hvacant, hbars⟩ := (hand_error_iff heq).mp ⟨r, hresult⟩
      have hstatus := hagrees.status s.seq
      rw [after_expected, accepted_of_ok hok, hvacant] at hstatus
      refine h.not_late timely hsplit hok ?_ (hlog.bars_iff.mp hbars)
      -- none of the number's frames is out, since not all of its slices have come
      have hlength := h.length_matched_lt hsplit
      by_contra hsome
      rcases hstatus.frames_eq with ⟨-, hnone⟩ | ⟨hall, -⟩
      · exact hstatus.held_iff.mpr ⟨hsome, hnone⟩ rfl
      · have hexpected : (new name expected history).expected = expected := rfl
        omega
    · exact ⟨frame, hresult⟩

/-- **What is delivered** of each number is made up of its slices. -/
theorem frames_eq (h : Batch expected slices) (hpos : 0 < expected)
    (timely : Timely name expected history slices) (seq : Nat) :
    frames seq ((new name expected history).answers slices) = wholeFrame (matched seq slices) := by
  have hok := h.all_ok timely (List.append_nil slices).symm
  have hstatus := (agrees_after name expected history slices).status seq
  rw [after_expected, accepted_of_ok hok] at hstatus
  have hexpected : (new name expected history).expected = expected := rfl
  by_cases hmem : seq ∈ numbered slices
  · obtain ⟨s, hs, rfl⟩ := mem_numbered.mp hmem
    have hfull := h.full s hs
    rcases hstatus.frames_eq with ⟨hlt, -⟩ | ⟨-, first, rest, hslices, hframes⟩
    · omega
    · rw [hframes, hslices, wholeFrame]
  · rw [matched_eq_nil hmem] at hstatus ⊢
    rcases hstatus.frames_eq with ⟨-, hnone⟩ | ⟨-, first, rest, hslices, -⟩
    · exact hnone
    · cases hslices

/-- The numbers of a batch are those that have slices. -/
theorem matched_ne_nil (h : Batch expected slices) (hpos : 0 < expected) {seq : Nat} :
    matched seq slices ≠ [] ↔ seq ∈ numbered slices := by
  refine ⟨fun hsome => by_contra fun hmem => hsome (matched_eq_nil hmem), fun hmem hnone => ?_⟩
  obtain ⟨s, hs, rfl⟩ := mem_numbered.mp hmem
  have hfull := h.full s hs
  rw [hnone, List.length_nil] at hfull
  omega

/-- **The numbers delivered** are those of the batch, each once. -/
theorem deliveries_perm (h : Batch expected slices) (hpos : 0 < expected)
    (timely : Timely name expected history slices) :
    (deliveries ((new name expected history).answers slices)).Perm (numbered slices) := by
  have hagrees := agrees_after name expected history slices
  have hnodup : (numbered slices).Nodup := List.nodup_dedup _
  refine (List.perm_ext_iff_of_nodup hagrees.nodup_deliveries hnodup).mpr fun seq => ?_
  rw [mem_deliveries, h.frames_eq hpos timely, ← h.matched_ne_nil hpos]
  cases matched seq slices <;> simp [wholeFrame]

/-- **Nothing is left under way.** -/
theorem pendingCount_eq (h : Batch expected slices) (hpos : 0 < expected)
    (timely : Timely name expected history slices) :
    ((new name expected history).after slices).pendingCount = 0 := by
  rw [(agrees_after name expected history slices).pendingCount, List.length_eq_zero_iff,
    List.eq_nil_iff_forall_not_mem]
  intro seq hseq
  obtain ⟨hsome, hnone⟩ := mem_underWay.mp hseq
  rw [accepted_of_ok (h.all_ok timely (List.append_nil slices).symm)] at hsome
  rw [h.frames_eq hpos timely] at hnone
  cases hslices : matched seq slices with
  | nil => exact hsome hslices
  | cons first rest =>
    rw [hslices] at hnone
    cases hnone

end Batch

/-- Slices of a number in another order make up a frame in another order. -/
theorem shuffled_wholeFrame {others : List Slice} {seq : Nat}
    (hperm : (matched seq slices).Perm (matched seq others)) :
    List.Forall₂ Frame.Shuffled (wholeFrame (matched seq slices))
      (wholeFrame (matched seq others)) := by
  have hmatched : ∀ l : List Slice, ∀ s ∈ matched seq l,
      s.seq = seq ∧ s.ids.length = s.values.length := fun l s hs =>
    of_decide_eq_true (List.mem_filter.mp hs).2
  have hfirst := hmatched slices
  have hsecond := hmatched others
  cases hslices : matched seq slices with
  | nil =>
    rw [hslices] at hperm
    rw [← hperm.nil_eq]
    exact .nil
  | cons s rest =>
    cases hothers : matched seq others with
    | nil =>
      rw [hslices, hothers] at hperm
      cases hperm.eq_nil
    | cons t rest' =>
      rw [hslices] at hperm hfirst
      rw [hothers] at hperm hsecond
      have hseq : s.seq = t.seq :=
        (hfirst s List.mem_cons_self).1.trans (hsecond t List.mem_cons_self).1.symm
      exact .cons (shuffled_assembled hperm hseq fun s hs => (hsecond s hs).2) .nil

end Batch

/-- **A batch comes through.** Take a new aggregator and a batch of slices, in any order, such that
window and horizon do not get in the way. No slice is refused, each number of the batch is delivered
in one answer, and at the end nothing is under way. The frame of a number is made up of its own
slices, in the order in which they came, whatever others came between them; if they come in another
order, even in another batch to an aggregator with another window, then so do the entries of the
frame. -/
theorem batch_exact (name : String) {expected history : Nat} {slices : List Slice}
    (hpos : 0 < expected) (batch : Batch expected slices)
    (timely : Timely name expected history slices) :
    let answers := (new name expected history).answers slices
    (∀ e ∈ answers, ∃ frame, e.outcome = .ok frame) ∧
    (deliveries answers).Perm (numbered slices) ∧
    (answers.countP fun e => e.frame?.isSome) = (numbered slices).length ∧
    ((new name expected history).after slices).pendingCount = 0 ∧
    (∀ seq, frames seq answers = wholeFrame (matched seq slices)) ∧
    ∀ history' others, Batch expected others → Timely name expected history' others →
      ∀ seq, (matched seq others).Perm (matched seq slices) →
        List.Forall₂ Frame.Shuffled (frames seq ((new name expected history').answers others))
          (frames seq answers) := by
  intro answers
  have hperm := batch.deliveries_perm hpos timely
  refine ⟨batch.all_ok timely (List.append_nil slices).symm, hperm, ?_,
    batch.pendingCount_eq hpos timely, batch.frames_eq hpos timely, ?_⟩
  · rw [← hperm.length_eq, deliveries, List.length_map, List.length_filterMap_eq_countP]
  · intro history' others hothers timely' seq hshuffled
    rw [hothers.frames_eq hpos timely', batch.frames_eq hpos timely]
    exact shuffled_wholeFrame hshuffled

/-- Two numbers, with two slices each, one between those of the other. -/
theorem batch_exact_interleaved :
    let slice := fun (seq : Nat) (id : ParticleId) => Slice.mk seq [id] [Vec3.zero] .high none
    let slices := [slice 1 0, slice 2 0, slice 2 1, slice 1 1]
    let answers := (new "positions" 2 2).answers slices
    (∀ e ∈ answers, ∃ frame, e.outcome = .ok frame) ∧ (deliveries answers).Perm [2, 1] ∧
    ((new "positions" 2 2).after slices).pendingCount = 0 ∧
    frames 1 answers = [assembled (slice 1 0) [slice 1 0, slice 1 1]] := by
  intro slice slices answers
  have batch : Batch 2 slices := ⟨by decide, by decide⟩
  have timely : Timely "positions" 2 2 slices := .inl (by decide)
  obtain ⟨hok, hdelivered, -, hcount, hframes, -⟩ :=
    batch_exact "positions" (by decide) batch timely
  exact ⟨hok, hdelivered, hcount, hframes 1⟩

end Aggregator

end PatchDynamics
