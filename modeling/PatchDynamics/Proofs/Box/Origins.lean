import Mathlib.Data.List.DropRight
import PatchDynamics.Proofs.Box.Race

/-!
# Where the values of a completion come from

The check of a deposit lets others get in, and registrations may change in the middle of a cycle. A
deposit can then pass its check when the cycle is over: the count is used up, so it is refused as
exhausted, but its value was kept before the count was looked at. It stays with the registration
until a completion takes it.

* `deposited (current seen)` — the values accepted in the cycle under way;
* `leftover n seen` — the values that refused deposits left behind at the end of cycle `n`;
* `Tracks` — the invariant: which of these the registrations hold;
* `completion_origins` — a completion lists, for each handle that is out, the latest value accepted
  in its cycle, or else the latest one left behind at the end of the cycle before;
* `refused_value_listed` — a run in which a refused value is listed.

Values of deposits that are refused for another reason are never listed.
-/

namespace PatchDynamics

namespace Box

variable {P D : Type}

/-! ## Reading what was seen -/

/-- What was seen since the latest opening. -/
def current (seen : List (Sight P D)) : List (Sight P D) := seen.rtakeWhile fun s => !s.opens

/-- The number of cycles started. -/
def started (seen : List (Sight P D)) : Nat := seen.countP Sight.opens

/-- The handle and the value, if the check let the attempt pass and cycle `n` had no count left. -/
def Attempt.exhausted? (n : Nat) (a : Attempt D) : Option (Handle × D) :=
  match a.verdict, a.outcome with
  | some (.ok _), .error (.cycleExhausted _ cycle) =>
    if cycle = n then some (a.handle, a.value) else none
  | _, _ => none

/-- The handle and the value, if it is a deposit that cycle `n` had no count left for. -/
def Sight.exhausted? (n : Nat) : Sight P D → Option (Handle × D)
  | .call _ => none
  | .attempt a => a.exhausted? n

/-- The values that refused deposits left behind at the end of cycle `n`, oldest first. -/
def leftover (n : Nat) (seen : List (Sight P D)) : List (Handle × D) :=
  seen.filterMap (Sight.exhausted? n)

variable {seen : List (Sight P D)} {s : Sight P D}

theorem current_of_opens (h : s.opens) : current (seen ++ [s]) = [] :=
  List.rtakeWhile_concat_neg _ _ _ (by simp [h])

theorem current_of_not_opens (h : ¬ s.opens) : current (seen ++ [s]) = current seen ++ [s] :=
  List.rtakeWhile_concat_pos _ _ _ (by simp [h])

theorem started_of_opens (h : s.opens) : started (seen ++ [s]) = started seen + 1 := by
  rw [started, List.countP_append, List.countP_singleton, if_pos h, started]

theorem started_of_not_opens (h : ¬ s.opens) : started (seen ++ [s]) = started seen := by
  rw [started, List.countP_append, List.countP_singleton, if_neg h, started]
  rfl

/-- Attempts start no cycle. -/
theorem started_attempts (attempts : List (Attempt D)) :
    started (seen ++ attempts.map .attempt) = started seen := by
  rw [started, List.countP_append, List.countP_map, started, Nat.add_eq_left]
  exact congrFun List.countP_false attempts

theorem leftover_concat (n : Nat) :
    leftover n (seen ++ [s]) = leftover n seen ++ (s.exhausted? n).toList := by
  rw [leftover, List.filterMap_append]
  cases hs : s.exhausted? n <;> simp [leftover, hs]

theorem deposited_concat :
    deposited (seen ++ [s]) = deposited seen ++ s.deposit?.toList := by
  rw [deposited, List.filterMap_append]
  cases hs : s.deposit? <;> simp [deposited, hs]

/-- An attempt starts no cycle, so what it deposits is deposited in the cycle under way. -/
theorem deposited_current_attempt (a : Attempt D) :
    deposited (current (seen ++ [.attempt a])) = deposited (current seen) ++ a.deposit?.toList := by
  rw [current_of_not_opens (s := .attempt a) Bool.false_ne_true, deposited_concat]
  rfl

theorem handlesSeen_append (seen more : List (Sight P D)) :
    handlesSeen (seen ++ more) =
      (more.filterMap Sight.call?).foldl Event.handlesAfter (handlesSeen seen) := by
  rw [handlesSeen, handlesOut, List.filterMap_append, List.foldl_append]
  rfl

/-- What was accepted since the latest opening was accepted. -/
theorem deposited_current_subset : deposited (current seen) ⊆ deposited seen :=
  ((List.rtakeWhile_suffix _ _).sublist.filterMap _).subset

/-! ## The invariant -/

/-- What a completion lists, and where it comes from: `early` is what was seen before the
completion, and `s` is the sight that the owner heard of it with. -/
structure Origins (label : BoxLabel) (early : List (Sight P D)) (s : Sight P D)
    (c : Completion D) : Prop where
  /-- it is of this box -/
  label : c.label = label
  /-- it is of the cycle started last -/
  cycle : c.cycle = started (early ++ [s])
  /-- of each handle that is out, in the order of registration, it lists the latest value that was
  left behind at the end of the cycle before or accepted in this one -/
  lists : c.deposits = listing (handlesSeen early)
    (leftover (c.cycle - 1) early ++ deposited (current (early ++ [s]))).reverse
  /-- so what it lists was accepted in its cycle or left behind at the end of the cycle before -/
  origin : ∀ d ∈ c.deposits, ∃ h ∈ handlesSeen early, h.task = d.1 ∧
    ((h, d.2) ∈ deposited (current (early ++ [s])) ∨ (h, d.2) ∈ leftover (c.cycle - 1) early)

/-- A value is listed through a handle that is out and under which it is held. -/
theorem mem_listing {handles : List Handle} {held : List (Handle × D)} {d : ComputeId × D}
    (hd : d ∈ listing handles held) : ∃ h ∈ handles, h.task = d.1 ∧ (h, d.2) ∈ held := by
  obtain ⟨h, hh, hsome⟩ := List.mem_filterMap.mp hd
  obtain ⟨v, hv, rfl⟩ := Option.map_eq_some_iff.mp hsome
  obtain ⟨early, late, rfl, -⟩ := List.lookup_eq_some_iff.mp hv
  exact ⟨h, hh, rfl, List.mem_append_right _ List.mem_cons_self⟩

/-- What is listed tells where it comes from. -/
theorem Origins.of_lists {label : BoxLabel} {early : List (Sight P D)} {c : Completion D}
    (hlabel : c.label = label) (hcycle : c.cycle = started (early ++ [s]))
    (hlists : c.deposits = listing (handlesSeen early)
      (leftover (c.cycle - 1) early ++ deposited (current (early ++ [s]))).reverse) :
    Origins label early s c := by
  refine ⟨hlabel, hcycle, hlists, fun d hd => ?_⟩
  rw [hlists] at hd
  obtain ⟨h, hh, htask, hmem⟩ := mem_listing hd
  rw [List.mem_reverse, List.mem_append] at hmem
  exact ⟨h, hh, htask, hmem.symm⟩

/-- If nothing was left behind, all that is listed was accepted in the cycle. -/
theorem Origins.accepted {label : BoxLabel} {early : List (Sight P D)} {c : Completion D}
    (ho : Origins label early s c) (hnone : leftover (c.cycle - 1) early = []) :
    ∀ d ∈ c.deposits, ∃ h ∈ handlesSeen early, h.task = d.1 ∧
      (h, d.2) ∈ deposited (current (early ++ [s])) := by
  intro d hd
  obtain ⟨h, hh, htask, hmem | hmem⟩ := ho.origin d hd
  · exact ⟨h, hh, htask, hmem⟩
  · exact absurd (hnone ▸ hmem) List.not_mem_nil

/-- The values that a box holds after what was seen, oldest first. -/
def stock (b : Box P D) (seen : List (Sight P D)) : List (Handle × D) :=
  if b.phase = .opened then leftover (b.cycle - 1) seen ++ deposited (current seen)
  else leftover b.cycle seen

theorem stock_of_opened {b : Box P D} (hphase : b.phase = .opened) (seen : List (Sight P D)) :
    b.stock seen = leftover (b.cycle - 1) seen ++ deposited (current seen) := if_pos hphase

theorem stock_of_ended {b : Box P D} (hphase : b.phase ≠ .opened) (seen : List (Sight P D)) :
    b.stock seen = leftover b.cycle seen := if_neg hphase

/-- The registrations hold what was seen to be kept and has not been taken. -/
structure Tracks (label : BoxLabel) (b : Box P D) (seen : List (Sight P D)) : Prop where
  /-- whose box it is -/
  owned : b.label = label
  /-- it closes by deposits -/
  mode : b.mode = .accumulate
  /-- no compute is registered twice -/
  nodup : b.tasks.Nodup
  /-- the handles that are out -/
  out : b.handles = handlesSeen seen
  /-- the number of the cycle -/
  number : b.cycle = started seen
  /-- the box is open exactly while it waits for deposits -/
  awaiting : b.phase = .opened ↔ 0 < b.remaining
  /-- tokens are not issued twice -/
  tokens : ∀ r ∈ b.registrations, r.token < b.nextToken
  /-- nothing was kept for a handle to be issued -/
  issued : ∀ n, ∀ p ∈ leftover n seen ++ deposited seen, p.1.token < b.nextToken
  /-- nothing was left behind at the end of a cycle that is not over -/
  unended : ∀ n, b.cycle < n ∨ b.phase = .opened ∧ b.cycle ≤ n → leftover n seen = []
  /-- each registration holds the latest value of its handle -/
  holds : ∀ r ∈ b.registrations, r.value = (b.stock seen).reverse.lookup (b.handle r)
  /-- what was listed so far -/
  told : ∀ early s late c, seen = early ++ s :: late → s.completion = some c →
    Origins label early s c

namespace Tracks

variable {label : BoxLabel} {b b' : Box P D} {h : Handle}

theorem new (serial : Nat) (label : BoxLabel) :
    (new serial label .accumulate : Box P D).Tracks label [] where
  owned := rfl
  mode := rfl
  nodup := List.nodup_nil
  out := rfl
  number := rfl
  awaiting := ⟨nofun, nofun⟩
  tokens := nofun
  issued := nofun
  unended := fun _ _ => rfl
  holds := nofun
  told := by
    intro early s late c hsplit
    exact absurd hsplit.symm (List.append_ne_nil_of_right_ne_nil _ (List.cons_ne_nil _ _))

/-- One more sight tells of what was listed before, and of what it lists itself. -/
theorem told_concat (hb : b.Tracks label seen)
    (hs : ∀ c, s.completion = some c → Origins label seen s c) :
    ∀ early t late c, seen ++ [s] = early ++ t :: late → t.completion = some c →
      Origins label early t c := by
  intro early t late c hsplit hc
  rcases List.eq_nil_or_concat late with rfl | ⟨late, u, rfl⟩
  · obtain ⟨rfl, hlast⟩ := List.append_inj' hsplit rfl
    obtain rfl := List.singleton_inj.mp hlast
    exact hs c hc
  · have hshift : seen ++ [s] = (early ++ t :: late) ++ [u] := by simpa using hsplit
    obtain ⟨rfl, -⟩ := List.append_inj' hshift rfl
    exact hb.told early t late c rfl hc

/-- A handle that is live was issued. -/
theorem token_lt (hb : b.Tracks label seen) {r : Registration D} (live : b.live? h = some r) :
    h.token < b.nextToken := by
  rw [← handle_of_live live]
  exact hb.tokens r (mem_of_live live)

/-- The values held are of handles that were issued. -/
theorem stock_issued (hb : b.Tracks label seen) : ∀ p ∈ b.stock seen, p.1.token < b.nextToken := by
  intro p hp
  rw [stock] at hp
  split at hp
  · rcases List.mem_append.mp hp with hp | hp
    · exact hb.issued _ p (List.mem_append_left _ hp)
    · exact hb.issued 0 p (List.mem_append_right _ (deposited_current_subset hp))
  · exact hb.issued _ p (List.mem_append_left _ hp)

/-! ### One attempt -/

/-- **One attempt** leaves tokens and handles alone; `b'` is the box afterwards. -/
theorem attempted (hb : b.Tracks label seen) {a : Attempt D}
    (hstanding : b'.label = b.label ∧ b'.mode = b.mode ∧ b'.cycle = b.cycle)
    (hhandles : b'.handles = b.handles) (htoken : b'.nextToken = b.nextToken)
    (hkept : ∀ n p, a.exhausted? n = some p ∨ a.deposit? = some p → p.1.token < b.nextToken)
    (hawaiting : b'.phase = .opened ↔ 0 < b'.remaining)
    (hunended : ∀ n, b.cycle < n ∨ b'.phase = .opened ∧ b.cycle ≤ n →
      leftover n (seen ++ [.attempt a]) = [])
    (hholds : ∀ r ∈ b'.registrations,
      r.value = (b'.stock (seen ++ [.attempt a])).reverse.lookup (b'.handle r))
    (htold : ∀ c, a.completion = some c → Origins label seen (.attempt a) c) :
    b'.Tracks label (seen ++ [.attempt a]) where
  owned := hstanding.1.trans hb.owned
  mode := hstanding.2.1.trans hb.mode
  nodup := by
    have htasks : b'.tasks = b.tasks := by
      have hmap := congrArg (List.map Handle.task) hhandles
      rwa [handles, handles, List.map_map, List.map_map] at hmap
    exact htasks ▸ hb.nodup
  out := by
    rw [hhandles, hb.out, handlesSeen_append]
    rfl
  number := by
    rw [hstanding.2.2, hb.number]
    exact (started_attempts [a]).symm
  awaiting := hawaiting
  tokens := by
    intro r hr
    have hmem : b'.handle r ∈ b.handles := hhandles ▸ List.mem_map_of_mem hr
    obtain ⟨s, hs, hsame⟩ := List.mem_map.mp hmem
    rw [htoken, ← show s.token = r.token from congrArg Handle.token hsame]
    exact hb.tokens s hs
  issued := by
    intro n p hp
    rw [htoken]
    rw [leftover_concat, deposited_concat, List.mem_append, List.mem_append, List.mem_append] at hp
    rcases hp with (hp | hp) | hp | hp
    · exact hb.issued n p (List.mem_append_left _ hp)
    · exact hkept n p (.inl (Option.mem_toList.mp hp))
    · exact hb.issued n p (List.mem_append_right _ hp)
    · exact hkept n p (.inr (Option.mem_toList.mp hp))
  unended := fun n hn => hunended n (hstanding.2.2 ▸ hn)
  holds := hholds
  told := hb.told_concat htold

/-- An attempt whose value was not kept changes nothing. -/
theorem refused (hb : b.Tracks label seen) {value : D} {verdict : Option (Except Refusal Unit)}
    {r : Refusal} (hr : verdict = some (.ok ()) → ∀ l n, r ≠ .cycleExhausted l n) :
    b.Tracks label (seen ++ [.attempt ⟨h, value, verdict, .error r, none⟩]) := by
  have hexhausted : ∀ n, (⟨h, value, verdict, .error r, none⟩ : Attempt D).exhausted? n = none := by
    intro n
    rw [Attempt.exhausted?]
    split
    · next hverdict houtcome => exact absurd (Except.error.inj houtcome) (hr hverdict _ _)
    · rfl
  have hleftover : ∀ n, leftover n (seen ++ [.attempt ⟨h, value, verdict, .error r, none⟩]) =
      leftover n seen := by
    intro n
    rw [leftover_concat, Sight.exhausted?, hexhausted, Option.toList_none, List.append_nil]
  refine hb.attempted ⟨rfl, rfl, rfl⟩ rfl rfl ?_ hb.awaiting ?_ ?_ nofun
  · rintro n p (hp | hp)
    · cases (hexhausted n).symm.trans hp
    · cases hp
  · intro n hn
    rw [hleftover]
    exact hb.unended n hn
  · rw [stock, hleftover, hleftover, deposited_current_attempt,
      show Attempt.deposit? _ = none from rfl, Option.toList_none, List.append_nil]
    exact hb.holds

/-- The registrations hold one value more once it is kept. -/
theorem holds_keep (hb : b.Tracks label seen) {r : Registration D} (live : b.live? h = some r)
    (value : D) : ∀ s ∈ (b.keep h b.cycle value).registrations,
      s.value = (b.stock seen ++ [(h, value)]).reverse.lookup (b.handle s) := by
  intro s hs
  rw [List.reverse_append]
  exact value_keep hb.nodup live b.cycle value hb.holds hs

/-- A value for which no count is left, as the cycle is over, is left behind. -/
theorem leftBehind (hb : b.Tracks label seen) {r : Registration D} (live : b.live? h = some r)
    {value : D} (hphase : b.phase ≠ .opened) :
    (b.keep h b.cycle value).Tracks label (seen ++ [.attempt
      ⟨h, value, some (.ok ()), .error (.cycleExhausted b.label b.cycle), none⟩]) := by
  have hkept : ∀ n, leftover n (seen ++ [.attempt
      ⟨h, value, some (.ok ()), .error (.cycleExhausted b.label b.cycle), none⟩]) =
        leftover n seen ++ if b.cycle = n then [(h, value)] else [] := by
    intro n
    rw [leftover_concat, Sight.exhausted?, Attempt.exhausted?]
    dsimp only
    split <;> rfl
  have hhandles := b.handles_keep h b.cycle value
  refine hb.attempted ⟨rfl, rfl, rfl⟩ hhandles rfl ?_ hb.awaiting ?_ ?_ nofun
  · rintro n p (hp | hp)
    · rw [Attempt.exhausted?] at hp
      dsimp only at hp
      split at hp
      · obtain rfl := Option.some.inj hp
        exact hb.token_lt live
      · cases hp
    · cases hp
  · rintro n (hn | hn)
    · rw [hkept, if_neg (by omega), hb.unended n (.inl hn), List.append_nil]
    · exact absurd hn.1 hphase
  · rw [stock_of_ended (b := b.keep h b.cycle value) hphase,
      show (b.keep h b.cycle value).cycle = b.cycle from rfl, hkept, if_pos rfl,
      ← stock_of_ended hphase]
    exact hb.holds_keep live value

/-- An accepted attempt adds to what is held, not to what is left behind. -/
theorem leftover_accepted {value : D} {done : Option (Completion D)} (n : Nat) :
    leftover n (seen ++ [.attempt ⟨h, value, some (.ok ()), .ok (), done⟩]) = leftover n seen := by
  rw [leftover_concat]
  exact List.append_nil _

theorem stock_accepted (hphase : b.phase = .opened) {value : D} {done : Option (Completion D)}
    (b' : Box P D) (hphase' : b'.phase = .opened) (hcycle : b'.cycle = b.cycle) :
    b'.stock (seen ++ [.attempt ⟨h, value, some (.ok ()), .ok (), done⟩]) =
      b.stock seen ++ [(h, value)] := by
  rw [stock_of_opened hphase', stock_of_opened hphase, leftover_accepted, hcycle,
    deposited_current_attempt, List.append_assoc]
  rfl

/-- A value that is counted but is not the last one awaited is held. -/
theorem held (hb : b.Tracks label seen) {r : Registration D} (live : b.live? h = some r)
    {value : D} (hphase : b.phase = .opened) (hleft : 1 < b.remaining) :
    ({ b.keep h b.cycle value with remaining := b.remaining - 1 } : Box P D).Tracks label
      (seen ++ [.attempt ⟨h, value, some (.ok ()), .ok (), none⟩]) := by
  refine hb.attempted ⟨rfl, rfl, rfl⟩ (b.handles_keep h b.cycle value) rfl ?_ ?_ ?_ ?_ nofun
  · rintro n p (hp | hp)
    · cases hp
    · obtain rfl := Option.some.inj hp
      exact hb.token_lt live
  · exact ⟨fun _ => Nat.sub_pos_of_lt hleft, fun _ => hphase⟩
  · intro n hn
    rw [leftover_accepted]
    exact hb.unended n (hn.imp_right fun hn => ⟨hphase, hn.2⟩)
  · intro s hs
    have hvalue := hb.holds_keep live value s hs
    rw [← stock_accepted hphase
      { b.keep h b.cycle value with remaining := b.remaining - 1 } hphase rfl] at hvalue
    exact hvalue

/-- The last value awaited completes the cycle, and all that is held is listed with it. -/
theorem completed (hb : b.Tracks label seen) {r : Registration D} (live : b.live? h = some r)
    {value : D} (hphase : b.phase = .opened) :
    (b.keep h b.cycle value).emptied.Tracks label (seen ++ [.attempt
      ⟨h, value, some (.ok ()), .ok (),
        some ⟨b.label, b.cycle, (b.keep h b.cycle value).collected, b.retrievals⟩⟩]) := by
  have hhandles := b.handles_keep h b.cycle value
  have hends : leftover b.cycle seen = [] := hb.unended b.cycle (.inr ⟨hphase, Nat.le_refl _⟩)
  refine hb.attempted ⟨rfl, rfl, rfl⟩ ((handles_emptied _).trans hhandles) rfl ?_
    ⟨nofun, nofun⟩ ?_ ?_ ?_
  · rintro n p (hp | hp)
    · cases hp
    · obtain rfl := Option.some.inj hp
      exact hb.token_lt live
  · rintro n (hn | hn)
    · rw [leftover_accepted]
      exact hb.unended n (.inl hn)
    · cases hn.1
  · -- nothing is held any more, and nothing was left behind at the end of this cycle
    intro s hs
    obtain ⟨t, -, rfl⟩ := List.mem_map.mp hs
    change none = List.lookup _ (leftover b.cycle _).reverse
    rw [leftover_accepted, hends]
    rfl
  · rintro c hc
    obtain rfl := Option.some.inj hc
    refine Origins.of_lists hb.owned (hb.number.trans (started_attempts [_]).symm) ?_
    dsimp only
    rw [InCycle.collected_eq (b := b.keep h b.cycle value) (hb.holds_keep live value), hhandles,
      hb.out, deposited_current_attempt, ← List.append_assoc, ← stock_of_opened hphase]
    rfl

/-- **What the count does** to a value that is kept: it is left behind, or held, or listed at once
with all the others. -/
theorem kept (hb : b.Tracks label seen) {r : Registration D} (live : b.live? h = some r)
    (value : D) :
    let reply := (b.keep h b.cycle value).countDown b.cycle
    reply.box.Tracks label
      (seen ++ [.attempt ⟨h, value, some (.ok ()), reply.outcome, reply.completion⟩]) := by
  intro reply
  by_cases hphase : b.phase = .opened
  · have hpos := hb.awaiting.mp hphase
    by_cases hlast : b.remaining = 1
    · have hreply : reply = _ := countDown_of_last (b := b.keep h b.cycle value) b.cycle hlast
      rw [hreply]
      exact hb.completed live hphase
    · have hmore : 1 < b.remaining := by omega
      have hreply : reply = _ := countDown_of_more (b := b.keep h b.cycle value) b.cycle hmore
      rw [hreply]
      exact hb.held live hphase hmore
  · have hnone : b.remaining = 0 := Nat.eq_zero_of_not_pos fun hpos => hphase (hb.awaiting.mpr hpos)
    have hreply : reply = _ := countDown_of_none (b := b.keep h b.cycle value) b.cycle hnone
    rw [hreply]
    exact hb.leftBehind live hphase

/-- **The second look** at a handle admitted in this cycle refuses the value or keeps it. -/
theorem settle (hb : b.Tracks label seen) (h : Handle) (value : D) :
    let reply := b.settle h b.cycle value
    reply.box.Tracks label
      (seen ++ [.attempt ⟨h, value, some (.ok ()), reply.outcome, reply.completion⟩]) := by
  intro reply
  cases hlive : b.live? h with
  | none =>
    have hreply : reply = b.refuse (.unknownHandle b.label h.task) := by
      simp only [reply, Box.settle, hlive]
    rw [hreply]
    exact hb.refused fun _ _ _ heq => by cases heq
  | some r =>
    by_cases hspent : r.lastCycle = b.cycle
    · have hreply : reply = b.refuse (.doubleUse b.label h.task b.cycle) := by
        simp only [reply, Box.settle, hlive]
        rw [if_pos hspent]
      rw [hreply]
      exact hb.refused fun _ _ _ heq => by cases heq
    · have hreply : reply = (b.keep h b.cycle value).countDown b.cycle := by
        simp only [reply, Box.settle, hlive]
        rw [if_neg hspent]
      rw [hreply]
      exact hb.kept hlive value

end Tracks

/-! ## Checks -/

/-- The box after a check, or after a deposit, tracks what was seen before and meanwhile. -/
def Course.Tracks (label : BoxLabel) (seen : List (Sight P D)) (c : Course P D) : Prop :=
  c.box.Tracks label (seen ++ c.attempts.map .attempt)

variable {label : BoxLabel} {b : Box P D}

/-- A check that only decides has added nothing. -/
theorem Course.Tracks.decided (hb : b.Tracks label seen) (verdict : Except Refusal Unit) :
    Course.Tracks label seen ⟨verdict, [], b⟩ := by
  unfold Course.Tracks
  rwa [List.map_nil, List.append_nil]

/-- The second half of a deposit, after a check. -/
theorem Course.Tracks.conclude {checked : Course P D} (hchecked : checked.Tracks label seen)
    (h : Handle) (value : D) : (checked.conclude h (started seen) value).Tracks label seen := by
  unfold Course.Tracks Course.conclude
  rw [List.map_append, ← List.append_assoc]
  cases checked.outcome with
  | error r => exact Box.Tracks.refused hchecked nofun
  | ok =>
    -- the check has started no cycle, so the handle was admitted in the cycle under way
    have hnumber := hchecked.number
    rw [started_attempts] at hnumber
    rw [← hnumber]
    exact Box.Tracks.settle hchecked h value

/-- A deposit, if its check keeps track. -/
theorem tracks_contend (hb : b.Tracks label seen) (h : Handle) (value : D)
    {check : P → Course P D} (hcheck : ∀ payload, (check payload).Tracks label seen) :
    (b.contend h value check).Tracks label seen := by
  rw [contend]
  cases hadm : b.admission h with
  | error r => exact hb.refused fun hverdict => by cases hverdict
  | ok cycle =>
    obtain ⟨-, -, -, -, rfl⟩ := admitted hadm
    rw [hb.number]
    refine Course.Tracks.conclude ?_ h value
    cases b.payload with
    | none => exact .decided hb _
    | some payload => exact hcheck payload

/-- **Every check keeps track**, however deep its deposits are nested. -/
theorem tracks_scrutinize (s : Scrutiny P D) (hb : b.Tracks label seen) :
    (scrutinize s b).Tracks label seen := by
  induction s generalizing b seen with
  | decide verdict => exact .decided hb verdict
  | deposit h value check next ih_check ih_next =>
    have hfirst := tracks_contend hb h value fun payload => ih_check payload hb
    unfold Course.Tracks
    rw [scrutinize, List.map_append, ← List.append_assoc]
    exact ih_next _ hfirst

/-! ## Calls -/

/-- What stays as it is under a call that is no deposit and starts no cycle. -/
structure Rests (b b' : Box P D) : Prop extends Stays b b' where
  /-- the count -/
  remaining : b'.remaining = b.remaining
  /-- no compute is registered twice -/
  nodup : b.tasks.Nodup → b'.tasks.Nodup
  /-- a registration that was not there holds nothing -/
  fresh : ∀ s ∈ b'.registrations, s ∈ b.registrations ∨ s.token < b'.nextToken ∧ s.value = none

theorem rests_perform (hmode : b.mode = .accumulate) {c : Call P D}
    (hother : ∀ check h value, c ≠ .deposit check h value) (hopens : ¬ (b.event c).opens) :
    Rests b (b.perform c).box := by
  have hstays := stays_perform hmode hother hopens
  cases c with
  | register task =>
    by_cases hmem : task ∈ b.tasks
    · have hr : b.register task = b.refuse (.alreadyRegistered b.label task) := if_pos hmem
      rw [perform, hr] at hstays ⊢
      exact ⟨hstays, rfl, id, fun _ hs => .inl hs⟩
    · refine ⟨hstays, ?_, fun hnodup => ?_, fun s hs => ?_⟩
      · rw [perform, register, if_neg hmem]
        rfl
      · rw [perform, Reply.map, tasks_register hmem]
        exact List.nodup_append_comm.mp (List.nodup_cons.mpr ⟨hmem, hnodup⟩)
      · rw [perform, register, if_neg hmem] at hs ⊢
        refine (List.mem_append.mp hs).imp_right fun hs => ?_
        rw [List.mem_singleton.mp hs]
        exact ⟨Nat.lt_succ_self _, rfl⟩
  | unregister h =>
    cases hlive : b.live? h with
    | none =>
      have hr : b.unregister h = b.refuse (.unknownHandle b.label h.task) := by
        rw [unregister, hlive]
      rw [perform, hr] at hstays ⊢
      exact ⟨hstays, rfl, id, fun _ hs => .inl hs⟩
    | some r =>
      refine ⟨hstays, ?_, fun hnodup => ?_, fun s hs => ?_⟩
      · rw [perform, unregister, hlive]
        rfl
      · rw [perform, Reply.map, tasks_unregister hlive]
        exact hnodup.filter _
      · rw [perform, unregister, hlive] at hs
        exact .inl (List.mem_of_mem_filter hs)
  | publish payload =>
    rw [perform, publish_of_busy payload fun hphase => hopens (opens_of_idle hphase payload)]
      at hstays ⊢
    exact ⟨hstays, rfl, id, fun _ hs => .inl hs⟩
  | close =>
    rw [perform, close_of_accumulate hmode] at hstays ⊢
    exact ⟨hstays, rfl, id, fun _ hs => .inl hs⟩
  | retrieve h =>
    rcases b.retrieve_cases h with ⟨_, hr, -⟩ | ⟨_, -, -, hr⟩ <;> rw [perform, hr] at hstays ⊢
    · exact ⟨hstays, rfl, id, fun _ hs => .inl hs⟩
    · exact ⟨hstays, rfl, id, fun _ hs => .inl hs⟩
  | deposit check h value => exact absurd rfl (hother check h value)

/-- The owner hears nothing of such a call. -/
theorem silent_perform (hmode : b.mode = .accumulate) {c : Call P D}
    (hother : ∀ check h value, c ≠ .deposit check h value) (hopens : ¬ (b.event c).opens) :
    (b.event c).completion = none := by
  cases c with
  | register task => exact b.completion_register task
  | unregister h => exact b.completion_unregister h
  | publish payload =>
    rw [event, perform, publish_of_busy payload fun hphase => hopens (opens_of_idle hphase payload)]
    rfl
  | close =>
    rw [event, perform, close_of_accumulate hmode]
    rfl
  | retrieve h => exact b.completion_retrieve h
  | deposit check h value => exact absurd rfl (hother check h value)

/-- A call leaves behind nothing. -/
theorem leftover_call (n : Nat) (e : Event P D) :
    leftover n (seen ++ [.call e]) = leftover n seen := by
  rw [leftover_concat]
  exact List.append_nil _

theorem deposited_call (e : Event P D) : deposited (seen ++ [.call e]) = deposited seen := by
  rw [deposited_concat]
  exact List.append_nil _

/-- The handles that are out after a call. -/
theorem Tracks.out_call (hb : b.Tracks label seen) (c : Call P D) :
    (b.perform c).box.handles = handlesSeen (seen ++ [.call (b.event c)]) := by
  rw [handles_perform hb.nodup c, handlesSeen_append, hb.out]
  rfl

/-- A call that is no deposit and starts no cycle: registrations may have come and gone. -/
theorem Tracks.call (hb : b.Tracks label seen) {c : Call P D}
    (hother : ∀ check h value, c ≠ .deposit check h value) (hopens : ¬ (b.event c).opens) :
    (b.perform c).box.Tracks label (seen ++ [.call (b.event c)]) := by
  have hrests := rests_perform hb.mode hother hopens
  have hphase : (b.perform c).box.phase = b.phase := congrArg Standing.phase hrests.standing
  have hcycle : (b.perform c).box.cycle = b.cycle := congrArg Standing.cycle hrests.standing
  have hcurrent : deposited (current (seen ++ [.call (b.event c)])) = deposited (current seen) := by
    rw [current_of_not_opens (s := .call _) hopens, deposited_call]
  have hstock : (b.perform c).box.stock (seen ++ [.call (b.event c)]) = b.stock seen := by
    rw [stock, stock, hphase, hcycle, leftover_call, leftover_call, hcurrent]
  refine ⟨(congrArg Standing.label hrests.standing).trans hb.owned,
    (congrArg Standing.mode hrests.standing).trans hb.mode, hrests.nodup hb.nodup, hb.out_call c,
    ?_, ?_, ?_, ?_, ?_, ?_, hb.told_concat fun done hdone => ?_⟩
  · rw [hcycle, hb.number, started_of_not_opens (s := .call _) hopens]
  · rw [hphase, hrests.remaining]
    exact hb.awaiting
  · intro s hs
    rcases hrests.fresh s hs with hold | hnew
    · exact Nat.lt_of_lt_of_le (hb.tokens s hold) hrests.token
    · exact hnew.1
  · intro n p hp
    rw [leftover_call, deposited_call] at hp
    exact Nat.lt_of_lt_of_le (hb.issued n p hp) hrests.token
  · intro n hn
    rw [hphase, hcycle] at hn
    rw [leftover_call]
    exact hb.unended n hn
  · intro s hs
    obtain ⟨hhandle, hold | htoken⟩ := hrests.registrations s hs
    · rw [hstock, hhandle]
      exact hb.holds s hold
    · rcases hrests.fresh s hs with hold | ⟨-, hnone⟩
      · exact absurd htoken (Nat.ne_of_lt (hb.tokens s hold))
      · -- the token of a new handle is larger than that of any handle that a value was kept for
        rw [hnone, hstock]
        refine (InCycle.lookup_of_not_mem fun hmem => ?_).symm
        obtain ⟨p, hp, hsame⟩ := List.mem_map.mp hmem
        have hlt := hb.stock_issued p (List.mem_reverse.mp hp)
        rw [hsame] at hlt
        exact Nat.ne_of_lt hlt htoken
  · cases (silent_perform hb.mode hother hopens).symm.trans hdone

/-- An event that starts a cycle; `b'` is the box afterwards. -/
theorem Tracks.opening (hb : b.Tracks label seen) {e : Event P D} (hopens : e.opens) {b' : Box P D}
    (hstanding : b'.label = b.label ∧ b'.mode = b.mode ∧ b'.cycle = b.cycle + 1)
    (hnodup : b'.tasks.Nodup) (hout : b'.handles = handlesSeen (seen ++ [.call e]))
    (hawaiting : b'.phase = .opened ↔ 0 < b'.remaining) (htoken : b'.nextToken = b.nextToken)
    (htokens : ∀ r ∈ b'.registrations, r.token < b'.nextToken)
    (hholds : ∀ r ∈ b'.registrations,
      r.value = (b'.stock (seen ++ [.call e])).reverse.lookup (b'.handle r))
    (htold : ∀ c, e.completion = some c → Origins label seen (.call e) c) :
    b'.Tracks label (seen ++ [.call e]) where
  owned := hstanding.1.trans hb.owned
  mode := hstanding.2.1.trans hb.mode
  nodup := hnodup
  out := hout
  number := by rw [hstanding.2.2, hb.number, started_of_opens (s := .call _) hopens]
  awaiting := hawaiting
  tokens := htokens
  issued := by
    intro n p hp
    rw [leftover_call, deposited_call] at hp
    exact htoken ▸ hb.issued n p hp
  unended := by
    intro n hn
    rw [hstanding.2.2] at hn
    rw [leftover_call]
    exact hb.unended n (.inl (by omega))
  holds := hholds
  told := hb.told_concat htold

/-- **An opening** starts the next cycle: what was left behind at the end of the last one is still
held. -/
theorem Tracks.publish (hb : b.Tracks label seen) (hphase : b.phase = .idle) (payload : P) :
    (b.publish payload).box.Tracks label (seen ++ [.call (b.event (.publish payload))]) := by
  have hopens := opens_of_idle hphase payload
  have hout := hb.out_call (.publish payload)
  change (b.publish payload).box.handles = _ at hout
  by_cases hnone : b.expected = 0
  · -- nobody is registered, so the cycle completes with nothing listed
    have hnil : b.registrations = [] := List.eq_nil_of_length_eq_zero hnone
    have hgone : (b.unattended payload).registrations = [] := by
      simp [Box.unattended, Box.shut, Box.start, hnil]
    have hnobody : handlesSeen seen = [] := by
      rw [← hb.out, handles, hnil]
      rfl
    rw [event, perform] at hopens ⊢
    rw [event, perform] at hout
    rw [publish_of_unattended payload hphase hb.mode hnone] at hopens hout ⊢
    refine hb.opening hopens ⟨rfl, rfl, rfl⟩ ?_ hout ⟨fun hopen => ?_, fun hpos => ?_⟩ rfl ?_ ?_
      fun c hc => ?_
    · rw [tasks, hgone]
      exact List.nodup_nil
    · cases hopen
    · exact absurd hnone (Nat.ne_of_gt hpos)
    · exact hgone ▸ List.forall_mem_nil _
    · exact hgone ▸ List.forall_mem_nil _
    · obtain rfl := Option.some.inj hc
      refine Origins.of_lists hb.owned ?_ ?_
      · rw [started_of_opens rfl, ← hb.number]
      · rw [hnobody]
        rfl
  · rw [event, perform] at hopens ⊢
    rw [event, perform] at hout
    rw [publish_of_idle payload hphase fun _ => hnone] at hopens hout ⊢
    refine hb.opening hopens ⟨rfl, rfl, rfl⟩ hb.nodup hout ?_ rfl hb.tokens ?_
      fun c hc => by cases hc
    · exact ⟨fun _ => Nat.pos_of_ne_zero hnone, fun _ => rfl⟩
    · have hended : b.phase ≠ .opened := by simp [hphase]
      rw [stock_of_opened (b := b.start payload) rfl, leftover_call,
        current_of_opens rfl, show deposited ([] : List (Sight P D)) = [] from rfl, List.append_nil,
        show (b.start payload).cycle - 1 = b.cycle from rfl, ← stock_of_ended hended]
      exact hb.holds

/-! ## Moves -/

/-- **Every move keeps track.** -/
theorem tracks_move (hb : b.Tracks label seen) (m : Move P D) :
    (b.move m).2.Tracks label (seen ++ (b.move m).1) := by
  cases m with
  | call c other =>
    by_cases hopens : (b.event c).opens
    · obtain ⟨hphase, payload, rfl⟩ := idle_of_opens hopens
      exact hb.publish hphase payload
    · exact hb.call other hopens
  | deposit h value check =>
    exact tracks_contend hb h value fun payload => tracks_scrutinize (check payload) hb

/-- **Every run of moves keeps track**, registrations coming and going at any time. -/
theorem tracks_moves (hb : b.Tracks label seen) (moves : List (Move P D)) :
    (b.afterMoves moves).Tracks label (seen ++ b.sights moves) := by
  induction moves generalizing b seen with
  | nil => exact (List.append_nil seen).symm ▸ hb
  | cons m moves ih =>
    have hrest := ih (tracks_move hb m)
    rw [List.append_assoc] at hrest
    exact hrest

/-- **The values of a completion.** Take an accumulate box and any run of moves on it, with
registrations coming and going at any time; the check of each deposit may make any deposits of its
own before it decides, and these have checks in turn. Whenever the owner hears of a completion, it
lists for each handle that is out the latest value that was accepted in its cycle, or else left
behind by a deposit that was refused at the end of the cycle before as exhausted. -/
theorem completion_origins (serial : Nat) (label : BoxLabel) {moves : List (Move P D)}
    {early late : List (Sight P D)} {s : Sight P D} {c : Completion D}
    (hsights : (new serial label .accumulate).sights moves = early ++ s :: late)
    (hc : s.completion = some c) : Origins label early s c := by
  have htracks := tracks_moves (Tracks.new serial label) moves
  exact htracks.told early s late c hsights hc

/-- The second compute is registered when the cycle is under way that waits for the first one. The
first one deposits 10, and while that is checked the second one deposits 20, which completes the
cycle. In the next cycle the second and the third compute deposit, and the first one does not. -/
def overdue : List (Move Unit Nat) :=
  let one : Handle := ⟨0, ⟨1⟩, 1⟩
  let two : Handle := ⟨0, ⟨2⟩, 2⟩
  let three : Handle := ⟨0, ⟨3⟩, 3⟩
  let accept : Unit → Scrutiny Unit Nat := fun _ => .decide (.ok ())
  [.call (.register ⟨1⟩) nofun, .call (.publish ()) nofun, .call (.register ⟨2⟩) nofun,
    .deposit one 10 fun _ => .deposit two 20 accept fun _ => .decide (.ok ()),
    .call (.publish ()) nofun, .call (.register ⟨3⟩) nofun,
    .deposit two 21 accept, .deposit three 30 accept]

/-- What is seen of that run before its last deposit: the value 10 is refused as exhausted. -/
def overdueSeen : List (Sight Unit Nat) :=
  let label : BoxLabel := ⟨⟨0⟩, .force⟩
  let one : Handle := ⟨0, ⟨1⟩, 1⟩
  let two : Handle := ⟨0, ⟨2⟩, 2⟩
  let three : Handle := ⟨0, ⟨3⟩, 3⟩
  [.call ⟨.register ⟨1⟩, .ok (.handle one), none⟩, .call ⟨.publish (), .ok (.cycle 1), none⟩,
    .call ⟨.register ⟨2⟩, .ok (.handle two), none⟩,
    .attempt ⟨two, 20, some (.ok ()), .ok (), some ⟨label, 1, [(⟨2⟩, 20)], 0⟩⟩,
    .attempt ⟨one, 10, some (.ok ()), .error (.cycleExhausted label 1), none⟩,
    .call ⟨.publish (), .ok (.cycle 2), none⟩, .call ⟨.register ⟨3⟩, .ok (.handle three), none⟩,
    .attempt ⟨two, 21, some (.ok ()), .ok (), none⟩]

/-- The last deposit completes the second cycle, and the value 10 is listed. -/
def overdueLast : Attempt Nat :=
  ⟨⟨0, ⟨3⟩, 3⟩, 30, some (.ok ()), .ok (),
    some ⟨⟨⟨0⟩, .force⟩, 2, [(⟨1⟩, 10), (⟨2⟩, 21), (⟨3⟩, 30)], 0⟩⟩

theorem sights_overdue : (new 0 ⟨⟨0⟩, .force⟩ .accumulate).sights overdue =
    overdueSeen ++ [.attempt overdueLast] := rfl

/-- The completion of that run lists the value 10 as one that was left behind. -/
theorem completion_origins_overdue :
    (new 0 ⟨⟨0⟩, .force⟩ .accumulate).sights overdue = overdueSeen ++ [.attempt overdueLast] ∧
      ∃ c, overdueLast.completion = some c ∧
        Origins ⟨⟨0⟩, .force⟩ overdueSeen (.attempt overdueLast) c :=
  ⟨sights_overdue, _, rfl, completion_origins 0 ⟨⟨0⟩, .force⟩ sights_overdue rfl⟩

/-- Not every value that a completion lists was accepted: the only deposit of 10 was refused. -/
theorem refused_value_listed :
    ∃ c, overdueLast.completion = some c ∧ (⟨1⟩, 10) ∈ c.deposits ∧
      (new 0 ⟨⟨0⟩, .force⟩ .accumulate).sights overdue = overdueSeen ++ [.attempt overdueLast] ∧
      ∀ p ∈ deposited (overdueSeen ++ [.attempt overdueLast]), p.2 ≠ 10 := by
  refine ⟨_, rfl, List.mem_cons_self, sights_overdue, ?_⟩
  change ∀ p ∈ [((⟨0, ⟨2⟩, 2⟩, 20) : Handle × Nat), (⟨0, ⟨2⟩, 2⟩, 21), (⟨0, ⟨3⟩, 3⟩, 30)], p.2 ≠ 10
  decide

end Box

end PatchDynamics
