import Mathlib.Data.List.Dedup
import PatchDynamics.Aggregator
import PatchDynamics.Proofs.Trace

/-!
# Frames are delivered exactly once

Slices of many numbers come in, in any order. For each number the aggregator delivers one frame,
with the slice that is the last one expected, and accepts no slice of that number afterwards,
although it remembers delivered numbers only for a while and then only by the horizon. The main
statement, `delivery_exact`, is read off the answers to the slices alone.

The invariant is `Status`: of each number, whether it is not started, under way or done, what was
accepted for it, and what the aggregator holds about it.
-/

namespace PatchDynamics

/-! ## The log of deliveries -/

namespace DeliveryLog

/-- Whether a number must not start a frame: it is remembered, or it is not past the horizon. -/
def Bars (log : DeliveryLog) (seq : Nat) : Prop :=
  seq ∈ log.recent ∨ ∃ h, log.horizon = some h ∧ seq ≤ h

/-- What is forgotten is behind the horizon. -/
theorem bars_forget (history : Nat) {recent : List Nat} {horizon : Option Nat} {seq : Nat}
    (h : Bars ⟨recent, horizon⟩ seq) : (forget history recent horizon).Bars seq := by
  induction recent generalizing horizon with
  | nil => exact h
  | cons old rest ih =>
    rw [forget.eq_def]
    dsimp only
    split
    · refine ih ?_
      rcases h with h | ⟨bound, rfl, hle⟩
      · rcases List.mem_cons.mp h with rfl | h
        · refine .inr ⟨_, rfl, ?_⟩
          split
          · exact Nat.le_refl _
          · exact Nat.le_max_right ..
        · exact .inl h
      · exact .inr ⟨_, rfl, Nat.le_trans hle (Nat.le_max_left ..)⟩
    · exact h

/-- A delivered number is barred from then on. -/
theorem bars_mark_self (log : DeliveryLog) (history seq : Nat) :
    (log.mark history seq).Bars seq :=
  bars_forget history (.inl (List.mem_append_right _ (List.mem_singleton.mpr rfl)))

/-- Further deliveries lift no bar. -/
theorem bars_mark {log : DeliveryLog} (history seq : Nat) {other : Nat} (h : log.Bars other) :
    (log.mark history seq).Bars other := by
  refine bars_forget history ?_
  rcases h with h | h
  · exact .inl (List.mem_append_left _ h)
  · exact .inr h

end DeliveryLog

namespace Aggregator

/-! ## Slices and answers -/

/-- A slice as it is handed in. -/
structure Slice where
  /-- the sequence number -/
  seq : Nat
  /-- the particles -/
  ids : List ParticleId
  /-- their values -/
  values : List Vec3
  /-- the precision that the contributor asks for -/
  precision : Precision
  /-- the periodic cell that the contributor knows -/
  lattice : Option Lattice

/-- A slice and the answer to it. -/
structure Event where
  /-- the slice -/
  slice : Slice
  /-- the answer -/
  outcome : Except Refusal (Option Frame)

namespace Event

/-- The slice, if it was accepted. -/
def accepted? (e : Event) : Option Slice :=
  match e.outcome with
  | .ok _ => some e.slice
  | .error _ => none

/-- The frame, if one was delivered. -/
def frame? (e : Event) : Option Frame :=
  match e.outcome with
  | .ok frame => frame
  | .error _ => none

end Event

/-- Hands in a slice. -/
def hand (a : Aggregator) (s : Slice) : Except Refusal (Option Frame) × Aggregator :=
  a.submit s.seq s.ids s.values s.precision s.lattice

/-- A slice and the answer that this aggregator gives. -/
def event (a : Aggregator) (s : Slice) : Event := ⟨s, (a.hand s).1⟩

/-- The aggregator after some slices. -/
def after (a : Aggregator) (slices : List Slice) : Aggregator :=
  slices.foldl (fun a s => (a.hand s).2) a

/-- The answers to some slices, in order. -/
def answers : Aggregator → List Slice → List Event := trace (fun a s => (a.hand s).2) event

theorem answers_concat (a : Aggregator) (slices : List Slice) (s : Slice) :
    a.answers (slices ++ [s]) = a.answers slices ++ [(a.after slices).event s] :=
  trace_append a slices [s]

/-- Where the answers are cut at an entry, the run was cut at its slice. -/
theorem answers_eq_append_cons {a : Aggregator} {slices : List Slice} {early late : List Event}
    {e : Event} (h : a.answers slices = early ++ e :: late) :
    ∃ first s rest, slices = first ++ s :: rest ∧ a.answers first = early ∧
      (a.after first).event s = e := by
  obtain ⟨first, s, rest, hslices, hfirst, he, -⟩ := trace_eq_append_cons h
  exact ⟨first, s, rest, hslices, hfirst, he⟩

/-- The slices of a number that were accepted, in order. -/
def accepted (seq : Nat) (events : List Event) : List Slice :=
  (events.filterMap Event.accepted?).filter fun s => s.seq = seq

/-- The frames that were delivered for a number. -/
def frames (seq : Nat) (events : List Event) : List Frame :=
  (events.filter fun e => e.slice.seq = seq).filterMap Event.frame?

/-- The numbers that have an accepted slice and no delivered frame. -/
def underWay (events : List Event) : List Nat :=
  ((events.filterMap Event.accepted?).map Slice.seq).dedup.filter fun seq => frames seq events = []

/-- The frame that some slices make up, in the precision and with the cell of the first. -/
def assembled (first : Slice) (slices : List Slice) : Frame where
  seq := first.seq
  precision := first.precision
  ids := slices.flatMap Slice.ids
  values := if first.precision.wantsDouble then slices.flatMap Slice.values else []
  narrowed :=
    if first.precision.wantsSingle then (slices.flatMap Slice.values).map Vec3.narrow else []
  lattice := first.lattice

/-- A frame starts with its first slice. -/
theorem append_start (s : Slice) :
    (Frame.start s.seq s.precision s.lattice).append s.ids s.values = assembled s [s] := by
  cases h : s.precision <;>
    simp [Frame.start, Frame.append, assembled, h, Precision.wantsDouble, Precision.wantsSingle]

/-- A frame grows by one slice. -/
theorem append_assembled (first : Slice) (slices : List Slice) (s : Slice) :
    (assembled first slices).append s.ids s.values = assembled first (slices ++ [s]) := by
  cases h : first.precision <;>
    simp [Frame.append, assembled, h, Precision.wantsDouble, Precision.wantsSingle]

/-! ## What is under way -/

variable {pending : List PendingFrame}

/-- The frame under way with a number, among some frames. -/
def lookup (seq : Nat) (pending : List PendingFrame) : Option PendingFrame :=
  pending.find? fun p => p.frame.seq = seq

theorem seq_of_lookup {seq : Nat} {p : PendingFrame} (h : lookup seq pending = some p) :
    p.frame.seq = seq := by
  have hp := List.find?_some h
  exact of_decide_eq_true hp

/-- A frame that is put in the place of another is found by the number that they share. -/
theorem lookup_replace (p : PendingFrame) (seq : Nat) :
    lookup seq (replace p pending) =
      (lookup seq pending).map fun q => if q.frame.seq = p.frame.seq then p else q := by
  rw [lookup, replace, List.find?_map]
  refine congrArg _ (congrArg (List.find? · pending) (funext fun q => ?_))
  by_cases h : q.frame.seq = p.frame.seq <;> simp [h]

theorem lookup_replace_self {p q : PendingFrame} {seq : Nat} (hp : p.frame.seq = seq)
    (h : lookup seq pending = some q) : lookup seq (replace p pending) = some p := by
  rw [lookup_replace, h, Option.map_some, if_pos ((seq_of_lookup h).trans hp.symm)]

theorem lookup_replace_of_ne {p : PendingFrame} {seq : Nat} (hne : p.frame.seq ≠ seq) :
    lookup seq (replace p pending) = lookup seq pending := by
  rw [lookup_replace]
  cases h : lookup seq pending with
  | none => rfl
  | some q => rw [Option.map_some, if_neg fun heq => hne (heq.symm.trans (seq_of_lookup h))]

theorem lookup_without_self (seq : Nat) : lookup seq (without seq pending) = none := by
  rw [lookup, without, List.find?_filter]
  refine List.find?_eq_none.mpr fun q _ => ?_
  simp

theorem lookup_without_of_ne {gone seq : Nat} (hne : gone ≠ seq) :
    lookup seq (without gone pending) = lookup seq pending := by
  rw [lookup, without, List.find?_filter]
  refine congrArg (List.find? · pending) (funext fun q => ?_)
  by_cases hq : q.frame.seq = seq <;> simp [hq, hne.symm]

theorem lookup_append_self {p : PendingFrame} {seq : Nat} (hp : p.frame.seq = seq)
    (h : lookup seq pending = none) : lookup seq (pending ++ [p]) = some p := by
  rw [lookup] at h ⊢
  rw [List.find?_append, h]
  simp [hp]

theorem lookup_append_of_ne {p : PendingFrame} {seq : Nat} (hne : p.frame.seq ≠ seq) :
    lookup seq (pending ++ [p]) = lookup seq pending := by
  rw [lookup, lookup, List.find?_append]
  simp [hne]

/-- The numbers of the frames under way. -/
def numbers (pending : List PendingFrame) : List Nat := pending.map fun p => p.frame.seq

theorem numbers_replace (p : PendingFrame) : numbers (replace p pending) = numbers pending := by
  rw [numbers, numbers, replace, List.map_map]
  refine List.map_congr_left fun q _ => ?_
  by_cases h : q.frame.seq = p.frame.seq <;> simp [h]

theorem numbers_without_sublist (gone : Nat) :
    (numbers (without gone pending)).Sublist (numbers pending) :=
  List.filter_sublist.map _

/-- A number is under way exactly if its frame is found. -/
theorem mem_numbers {seq : Nat} : seq ∈ numbers pending ↔ lookup seq pending ≠ none := by
  rw [numbers, List.mem_map, lookup, ne_eq, List.find?_eq_none]
  simp

/-! ## What a slice does -/

theorem checkLate_ok {a : Aggregator} {seq : Nat} (h : a.checkLate seq = .ok ()) :
    ¬ a.delivered.Bars seq := by
  rw [checkLate] at h
  split at h
  · cases h
  · next hrecent =>
    rintro (hbars | ⟨bound, hbound, hle⟩)
    · exact hrecent hbars
    · rw [hbound] at h
      dsimp only at h
      rw [if_pos hle] at h
      cases h

/-- All that handing in a slice can do, with the answer to it. -/
inductive Handed (a : Aggregator) (s : Slice) : Except Refusal (Option Frame) × Aggregator → Prop
  where
  /-- the slice is refused -/
  | refused (r : Refusal) : Handed a s (.error r, a)
  /-- the frame under way grows, and more slices are to come -/
  | continued {p : PendingFrame} (pending : a.pending? s.seq = some p) (more : 1 < p.remaining) :
    Handed a s (.ok none, { a with
      pending := replace ⟨p.frame.append s.ids s.values, p.remaining - 1⟩ a.pending })
  /-- the frame under way is completed -/
  | finished {p : PendingFrame} (pending : a.pending? s.seq = some p) (last : p.remaining ≤ 1) :
    Handed a s (.ok (some (p.frame.append s.ids s.values)), { a.markDelivered s.seq with
      pending := without s.seq a.pending })
  /-- a frame is started, and more slices are to come -/
  | started (pending : a.pending? s.seq = none) (fresh : ¬ a.delivered.Bars s.seq)
    (more : 1 < a.expected) :
    Handed a s (.ok none, { a with
      pending := a.pending ++ [⟨assembled s [s], a.expected - 1⟩] })
  /-- a frame is started and completed -/
  | passed (pending : a.pending? s.seq = none) (fresh : ¬ a.delivered.Bars s.seq)
    (last : a.expected ≤ 1) :
    Handed a s (.ok (some (assembled s [s])), a.markDelivered s.seq)

/-- **What handing in a slice does.** -/
theorem handed (a : Aggregator) (s : Slice) : Handed a s (a.hand s) := by
  rw [hand, submit]
  split
  · exact .refused _
  · split
    · next p hpending =>
      have hseq := seq_of_lookup hpending
      by_cases hlast : p.remaining - 1 = 0
      · simp only [continueFrame, hlast, if_true]
        have hfinished := Handed.finished (s := s) hpending (by omega)
        rw [← hseq] at hfinished
        exact hfinished
      · simp only [continueFrame, hlast, if_false]
        exact .continued hpending (by omega)
    · next hpending =>
      split
      · exact .refused _
      · next hfresh =>
        have hbars := checkLate_ok hfresh
        by_cases hlast : a.expected - 1 = 0
        · simp only [startFrame, hlast, if_true, append_start]
          exact .passed hpending hbars (by omega)
        · simp only [startFrame, hlast, if_false, append_start]
          exact .started hpending hbars (by omega)

/-! ## The invariant -/

/-- Where a number stands: the slices accepted and the frames delivered for it, and the frame that
the aggregator holds; `barred` tells whether the number is barred from starting a frame. -/
inductive Status (expected : Nat) (barred : Prop) :
    List Slice → List Frame → Option PendingFrame → Prop where
  /-- nothing came in -/
  | unstarted : Status expected barred [] [] none
  /-- some slices came in, and others are to come -/
  | underWay {first : Slice} {rest : List Slice} {remaining : Nat} (more : 0 < remaining)
    (counted : rest.length + 1 + remaining = max expected 1) :
    Status expected barred (first :: rest) [] (some ⟨assembled first (first :: rest), remaining⟩)
  /-- all slices came in, and no other will be accepted -/
  | done {first : Slice} {rest : List Slice} (all : rest.length + 1 = max expected 1)
    (late : barred) :
    Status expected barred (first :: rest) [assembled first (first :: rest)] none

namespace Status

variable {expected : Nat} {barred barred' : Prop} {slices : List Slice} {frames : List Frame}
  {held : Option PendingFrame} {p : PendingFrame}

/-- More numbers may be barred. -/
theorem mono (h : Status expected barred slices frames held) (hbars : barred → barred') :
    Status expected barred' slices frames held := by
  cases h with
  | unstarted => exact .unstarted
  | underWay more counted => exact .underWay more counted
  | done all late => exact .done all (hbars late)

/-- A slice of a frame that needs more. -/
theorem more (h : Status expected barred slices frames (some p)) (s : Slice)
    (hmore : 1 < p.remaining) :
    Status expected barred (slices ++ [s]) frames
      (some ⟨p.frame.append s.ids s.values, p.remaining - 1⟩) := by
  cases h with
  | @underWay first rest remaining more counted =>
    have hlength : (rest ++ [s]).length = rest.length + 1 := List.length_append
    rw [append_assembled]
    refine .underWay (Nat.sub_pos_of_lt hmore) ?_
    change (rest ++ [s]).length + 1 + (remaining - 1) = max expected 1
    omega

/-- The last slice of a frame. -/
theorem last (h : Status expected barred slices frames (some p)) (s : Slice)
    (hlast : p.remaining ≤ 1) (late : barred') :
    Status expected barred' (slices ++ [s]) (frames ++ [p.frame.append s.ids s.values]) none := by
  cases h with
  | @underWay first rest remaining more counted =>
    have hlength : (rest ++ [s]).length = rest.length + 1 := List.length_append
    have hone : remaining = 1 := Nat.le_antisymm hlast more
    rw [append_assembled]
    refine .done ?_ late
    change (rest ++ [s]).length + 1 = max expected 1
    omega

/-- A number that may start a frame has none. -/
theorem fresh (h : Status expected barred slices frames none) (hfresh : ¬ barred) :
    slices = [] ∧ frames = [] := by
  cases h with
  | unstarted => exact ⟨rfl, rfl⟩
  | done all late => exact absurd late hfresh

/-- No more slices are accepted than expected, and exactly the last one brings the frame. -/
theorem length_le (h : Status expected barred slices frames held) :
    slices.length ≤ max expected 1 := by
  cases h with
  | unstarted => exact Nat.zero_le _
  | underWay more counted => exact Nat.le_of_add_right_le (Nat.le_of_eq counted)
  | done all late => exact Nat.le_of_eq all

/-- Exactly when all slices are in, there is a frame, which the slices make up. -/
theorem frames_eq (h : Status expected barred slices frames held) :
    (slices.length < max expected 1 ∧ frames = []) ∨
    slices.length = max expected 1 ∧ ∃ first rest, slices = first :: rest ∧
      frames = [assembled first (first :: rest)] := by
  cases h with
  | unstarted => exact .inl ⟨Nat.lt_of_lt_of_le Nat.one_pos (Nat.le_max_right ..), rfl⟩
  | underWay more counted => exact .inl ⟨by rw [List.length_cons]; omega, rfl⟩
  | done all late => exact .inr ⟨all, _, _, rfl, rfl⟩

/-- A number is under way exactly if slices came in and no frame went out. -/
theorem held_iff (h : Status expected barred slices frames held) :
    held ≠ none ↔ slices ≠ [] ∧ frames = [] := by
  cases h with
  | unstarted => simp
  | underWay more counted => simp
  | done all late => simp

end Status

/-- The aggregator agrees with the answers that it gave. -/
structure Agrees (a : Aggregator) (events : List Event) : Prop where
  /-- no number is under way twice -/
  distinct : (numbers a.pending).Nodup
  /-- each number stands somewhere -/
  status : ∀ seq, Status a.expected (a.delivered.Bars seq) (accepted seq events)
    (frames seq events) (a.pending? seq)

theorem agrees_new (name : String) (expected history : Nat) :
    (new name expected history).Agrees [] where
  distinct := List.nodup_nil
  status := fun _ => .unstarted

/-! ### Answers about one number -/

theorem accepted_append (seq : Nat) (events more : List Event) :
    accepted seq (events ++ more) = accepted seq events ++ accepted seq more := by
  rw [accepted, List.filterMap_append, List.filter_append]
  rfl

theorem frames_append (seq : Nat) (events more : List Event) :
    frames seq (events ++ more) = frames seq events ++ frames seq more := by
  rw [frames, List.filter_append, List.filterMap_append]
  rfl

/-- A slice of another number tells nothing about this one. -/
theorem accepted_of_ne {seq : Nat} {e : Event} (h : e.slice.seq ≠ seq) : accepted seq [e] = [] := by
  refine List.filter_eq_nil_iff.mpr fun s hs => ?_
  obtain ⟨e', he', hs⟩ := List.mem_filterMap.mp hs
  rw [List.mem_singleton.mp he', Event.accepted?] at hs
  split at hs
  · obtain rfl := Option.some.inj hs
    simpa using h
  · cases hs

theorem frames_of_ne {seq : Nat} {e : Event} (h : e.slice.seq ≠ seq) : frames seq [e] = [] := by
  simp [frames, h]

theorem mem_underWay {seq : Nat} {events : List Event} :
    seq ∈ underWay events ↔ accepted seq events ≠ [] ∧ frames seq events = [] := by
  have hsome : accepted seq events ≠ [] ↔
      seq ∈ (events.filterMap Event.accepted?).map Slice.seq := by
    rw [accepted, ne_eq, List.filter_eq_nil_iff, List.mem_map]
    simp only [decide_eq_true_eq, not_forall, not_not, exists_prop]
  unfold underWay
  rw [List.mem_filter, List.mem_dedup, hsome, decide_eq_true_eq]

theorem nodup_underWay (events : List Event) : (underWay events).Nodup :=
  (List.nodup_dedup _).filter _

/-! ### One slice -/

variable {a b : Aggregator} {events : List Event} {s : Slice}

/-- A slice leaves the numbers other than its own where they stand. -/
theorem Agrees.status_of_ne (h : a.Agrees events) {e : Event} {seq : Nat} (hne : e.slice.seq ≠ seq)
    (hexpected : b.expected = a.expected) (hpending : b.pending? seq = a.pending? seq)
    (hbars : a.delivered.Bars seq → b.delivered.Bars seq) :
    Status b.expected (b.delivered.Bars seq) (accepted seq (events ++ [e]))
      (frames seq (events ++ [e])) (b.pending? seq) := by
  rw [accepted_append, frames_append, accepted_of_ne hne, frames_of_ne hne, List.append_nil,
    List.append_nil, hexpected, hpending]
  exact (h.status seq).mono hbars

theorem accepted_self (s : Slice) (frame : Option Frame) :
    accepted s.seq [⟨s, .ok frame⟩] = [s] := by
  simp [accepted, Event.accepted?]

theorem frames_self (s : Slice) (frame : Option Frame) :
    frames s.seq [⟨s, .ok frame⟩] = frame.toList := by
  cases frame <;> simp [frames, Event.frame?]

theorem accepted_refused (seq : Nat) (s : Slice) (r : Refusal) :
    accepted seq [⟨s, .error r⟩] = [] := rfl

theorem frames_refused (seq : Nat) (s : Slice) (r : Refusal) :
    frames seq [⟨s, .error r⟩] = [] := by
  by_cases h : s.seq = seq <;> simp [frames, Event.frame?, h]

theorem Agrees.refused (h : a.Agrees events) (r : Refusal) :
    a.Agrees (events ++ [⟨s, .error r⟩]) := by
  refine ⟨h.distinct, fun seq => ?_⟩
  rw [accepted_append, frames_append, accepted_refused, frames_refused, List.append_nil,
    List.append_nil]
  exact h.status seq

/-- An accepted slice moves its own number to where the aggregator has it now, and leaves the others
where they stand. -/
theorem Agrees.accepted (h : a.Agrees events) {frame : Option Frame}
    (hdistinct : (numbers b.pending).Nodup) (hexpected : b.expected = a.expected)
    (hown : Status a.expected (b.delivered.Bars s.seq) (accepted s.seq events ++ [s])
      (frames s.seq events ++ frame.toList) (b.pending? s.seq))
    (hpending : ∀ seq, s.seq ≠ seq → b.pending? seq = a.pending? seq)
    (hbars : ∀ seq, a.delivered.Bars seq → b.delivered.Bars seq) :
    b.Agrees (events ++ [⟨s, .ok frame⟩]) := by
  refine ⟨hdistinct, fun seq => ?_⟩
  by_cases hne : s.seq = seq
  · subst hne
    rw [accepted_append, frames_append, accepted_self, frames_self, hexpected]
    exact hown
  · exact h.status_of_ne hne hexpected (hpending seq hne) (hbars seq)

/-- A frame that is not found is not under way, and may be started. -/
theorem Agrees.distinct_append (h : a.Agrees events) {p : PendingFrame}
    (pending : a.pending? p.frame.seq = none) : (numbers (a.pending ++ [p])).Nodup := by
  rw [numbers, List.map_append]
  refine List.nodup_append.mpr ⟨h.distinct, by simp, ?_⟩
  intro m hm n hn heq
  rw [List.map_singleton, List.mem_singleton] at hn
  exact mem_numbers.mp hm (heq ▸ hn ▸ pending)

/-- **One slice keeps the aggregator in agreement** with its answers. -/
theorem Agrees.handed (h : a.Agrees events) {r : Except Refusal (Option Frame) × Aggregator}
    (hr : Handed a s r) : r.2.Agrees (events ++ [⟨s, r.1⟩]) := by
  have hstatus := h.status s.seq
  cases hr with
  | refused r => exact h.refused r
  | @continued p pending more =>
    -- the frame that is found is the one of the slice's number
    have hseq : p.frame.seq = s.seq := seq_of_lookup pending
    rw [pending] at hstatus
    refine h.accepted ?_ rfl ?_ ?_ fun _ => id
    · rw [numbers_replace]
      exact h.distinct
    · have hgrown := hstatus.more s more
      have hfound := lookup_replace_self
        (p := ⟨p.frame.append s.ids s.values, p.remaining - 1⟩) hseq pending
      rw [pending?, ← lookup, hfound, Option.toList_none, List.append_nil]
      exact hgrown
    · exact fun seq hne => lookup_replace_of_ne fun heq => hne (hseq.symm.trans heq)
  | finished pending last =>
    rw [pending] at hstatus
    refine h.accepted (h.distinct.sublist (numbers_without_sublist _)) rfl ?_ ?_ ?_
    -- the frame goes out, and its number is barred from now on
    · have hgone : lookup s.seq (without s.seq a.pending) = none := lookup_without_self s.seq
      rw [pending?, ← lookup, hgone]
      exact hstatus.last s last (a.delivered.bars_mark_self a.history s.seq)
    · exact fun seq hne => lookup_without_of_ne hne
    · exact fun seq => DeliveryLog.bars_mark a.history s.seq
  | started pending fresh more =>
    rw [pending] at hstatus
    obtain ⟨hslices, hframes⟩ := hstatus.fresh fresh
    refine h.accepted (h.distinct_append pending) rfl ?_ ?_ fun _ => id
    · have hfound : lookup s.seq (a.pending ++ [⟨assembled s [s], a.expected - 1⟩]) = some _ :=
        lookup_append_self rfl pending
      rw [pending?, ← lookup, hfound, hslices, hframes]
      -- one slice is in, and the others are still to come
      exact .underWay (Nat.sub_pos_of_lt more) (by rw [List.length_nil]; omega)
    · exact fun seq hne => lookup_append_of_ne hne
  | passed pending fresh last =>
    rw [pending] at hstatus
    obtain ⟨hslices, hframes⟩ := hstatus.fresh fresh
    refine h.accepted h.distinct rfl ?_ (fun _ _ => rfl) ?_
    · rw [show (a.markDelivered s.seq).pending? s.seq = none from pending, hslices, hframes]
      -- a frame of one slice is never under way
      refine .done ?_ (a.delivered.bars_mark_self a.history s.seq)
      rw [List.length_nil]
      omega
    · exact fun seq => DeliveryLog.bars_mark a.history s.seq

/-! ### A run of slices -/

theorem Agrees.after (h : a.Agrees events) (slices : List Slice) :
    (a.after slices).Agrees (events ++ a.answers slices) := by
  induction slices generalizing a events with
  | nil => exact (List.append_nil events).symm ▸ h
  | cons s slices ih =>
    have hnext := ih (h.handed (Aggregator.handed a s))
    rw [List.append_assoc] at hnext
    exact hnext

/-- A new aggregator agrees with all answers that it gives. -/
theorem agrees_after (name : String) (expected history : Nat) (slices : List Slice) :
    ((new name expected history).after slices).Agrees
      ((new name expected history).answers slices) :=
  (agrees_new name expected history).after slices

theorem handed_expected {r : Except Refusal (Option Frame) × Aggregator} (hr : Handed a s r) :
    r.2.expected = a.expected := by
  cases hr <;> rfl

theorem after_expected (a : Aggregator) (slices : List Slice) :
    (a.after slices).expected = a.expected := by
  induction slices generalizing a with
  | nil => rfl
  | cons s slices ih => exact (ih (a.hand s).2).trans (handed_expected (handed a s))

/-- As many frames are under way as there are numbers with an accepted slice and no delivered
frame. -/
theorem Agrees.pendingCount (h : a.Agrees events) : a.pendingCount = (underWay events).length := by
  -- both lists are free of repetitions and have the same members
  have hperm : (numbers a.pending).Perm (underWay events) := by
    refine (List.perm_ext_iff_of_nodup h.distinct (nodup_underWay events)).mpr fun seq => ?_
    rw [mem_underWay, mem_numbers]
    exact (h.status seq).held_iff
  rw [Aggregator.pendingCount, ← hperm.length_eq, numbers, List.length_map]

/-- What an answer brings, from where its number stood before it and stands after it. -/
theorem frame_iff {early : List Event} {e : Event} {expected : Nat} {barred barred' : Prop}
    {held held' : Option PendingFrame}
    (hbefore : Status expected barred (accepted e.slice.seq early) (frames e.slice.seq early) held)
    (hafter : Status expected barred' (accepted e.slice.seq (early ++ [e]))
      (frames e.slice.seq (early ++ [e])) held') :
    (e.frame?.isSome ↔
      e.accepted?.isSome ∧ (accepted e.slice.seq early).length + 1 = max expected 1) ∧
    ∀ frame, e.frame? = some frame → ∃ first rest,
      accepted e.slice.seq (early ++ [e]) = first :: rest ∧
      (first :: rest).length = max expected 1 ∧ frame = assembled first (first :: rest) := by
  obtain ⟨s, r | frame⟩ := e
  · refine ⟨⟨nofun, fun h => nomatch h.1⟩, nofun⟩
  · have hslices : accepted s.seq (early ++ [⟨s, .ok frame⟩]) = accepted s.seq early ++ [s] := by
      rw [accepted_append, accepted_self]
    have hframes : frames s.seq (early ++ [⟨s, .ok frame⟩]) =
        frames s.seq early ++ frame.toList := by
      rw [frames_append, frames_self]
    -- of the four cases, before and after the slice, only two can be
    have hle := hafter.length_le
    have hresult := hafter.frames_eq
    dsimp only at hle hresult hbefore ⊢
    rw [hslices, List.length_append, List.length_singleton] at hle
    rw [hslices, hframes, List.length_append, List.length_singleton] at hresult
    rw [hslices]
    rcases hbefore.frames_eq with ⟨-, hnone⟩ | ⟨hfull, -⟩
    · rw [hnone, List.nil_append] at hresult
      rcases hresult with ⟨hlt, hquiet⟩ | ⟨hlast, first, rest, hall, hone⟩
      · -- more slices are to come
        cases frame with
        | none => exact ⟨⟨nofun, fun h => absurd h.2 (Nat.ne_of_lt hlt)⟩, nofun⟩
        | some frame => cases hquiet
      · -- this was the last slice
        cases frame with
        | none => cases hone
        | some frame =>
          obtain rfl : frame = _ := List.singleton_inj.mp hone
          refine ⟨⟨fun _ => ⟨rfl, hlast⟩, fun _ => rfl⟩, fun f hf => ?_⟩
          obtain rfl := Option.some.inj hf
          refine ⟨first, rest, hall, ?_, rfl⟩
          rw [← hall, List.length_append, List.length_singleton, hlast]
    · -- no slice is accepted of a number that has them all
      rw [hfull] at hle
      exact absurd hle (Nat.not_succ_le_self _)

/-- **Frames are delivered exactly once.** Take a new aggregator and any run of slices, of any
numbers in any order. An answer brings a frame exactly if its slice is accepted as the last one
expected for its number; the frame is what the slices accepted for the number make up; and after it
no slice of the number is accepted. The frames under way are those of the numbers with an accepted
slice and no delivered frame. -/
theorem delivery_exact (name : String) (expected history : Nat) (slices : List Slice) :
    let answers := (new name expected history).answers slices
    (∀ early e late, answers = early ++ e :: late →
      (e.frame?.isSome ↔
        e.accepted?.isSome ∧ (accepted e.slice.seq early).length + 1 = max expected 1) ∧
      ∀ frame, e.frame? = some frame →
        (∃ first rest, accepted e.slice.seq (early ++ [e]) = first :: rest ∧
          frame = assembled first (first :: rest)) ∧
        accepted e.slice.seq late = []) ∧
    ((new name expected history).after slices).pendingCount = (underWay answers).length := by
  refine ⟨?_, (agrees_after name expected history slices).pendingCount⟩
  intro early e late hsplit
  obtain ⟨first, s, rest, rfl, rfl, rfl⟩ := answers_eq_append_cons hsplit
  have hexpected := after_expected (new name expected history)
  -- where the number stands before the answer, right after it, and at the end
  have hbefore := (agrees_after name expected history first).status s.seq
  have hmid := (agrees_after name expected history (first ++ [s])).status s.seq
  have hend := (agrees_after name expected history (first ++ s :: rest)).status s.seq
  rw [hexpected] at hbefore hmid hend
  rw [answers_concat] at hmid
  obtain ⟨hiff, hframe⟩ := frame_iff (e := event (after (new name expected history) first) s)
    hbefore hmid
  refine ⟨hiff, fun frame hsome => ?_⟩
  obtain ⟨slice, more, hslices, hall, rfl⟩ := hframe frame hsome
  refine ⟨⟨slice, more, hslices, rfl⟩, ?_⟩
  -- the number has all its slices, so there is no room for another
  have hle := hend.length_le
  rw [hsplit, List.append_cons, accepted_append, List.length_append] at hle
  rw [show (event _ s).slice.seq = s.seq from rfl] at hslices ⊢
  rw [hslices, hall] at hle
  exact List.eq_nil_of_length_eq_zero (by omega)

end Aggregator

end PatchDynamics
