import PatchDynamics.Proofs.Box.Account

/-!
# Racing deposits

Deposits race in a cycle when the check of one lets others get in. Which of them count is settled at
the second look at the handle.

* `Keeps` — the invariant: what the box has counted, stamped and kept is what the account says;
* `Keeps.admission` and `Keeps.settle` — the two looks at a handle, and what each finds;
* `Follows` — a piece of a run that accords with the account; by induction on the check, so does
  every deposit, however deep others are nested in it;
* `Fair` — what is seen of a cycle, whatever deposits race in it.

The main statement is `race_exact`.
-/

namespace PatchDynamics

namespace Box

variable {P D : Type}

/-! ## The invariant -/

/-- The box has counted, stamped and kept what the account says. -/
structure Keeps (label : BoxLabel) (b : Box P D) (acc : Account D) : Prop where
  /-- whose box it is -/
  label : b.label = label
  /-- its count and the values it holds -/
  inCycle : b.InCycle acc.awaited.length acc.held
  /-- the handles that are out -/
  out : b.handles = acc.out
  /-- the number of the cycle -/
  number : b.cycle = acc.number
  /-- a cycle in which somebody was awaited has a number -/
  begun : acc.awaited ≠ [] → 0 < acc.number
  /-- nobody is awaited twice -/
  nodup : acc.awaited.Nodup
  /-- handles to be issued are not awaited -/
  issued : ∀ h ∈ acc.awaited, h.token < b.nextToken
  /-- deposits are accepted only through handles that were awaited -/
  admits : ∀ h, acc.Spent h → h ∈ acc.awaited
  /-- while the cycle is under way, registrations are left alone -/
  steady : b.phase = .opened → acc.out = acc.awaited
  /-- of the handles that were awaited, those are stamped that have deposited -/
  stamps : ∀ r ∈ b.registrations, b.handle r ∈ acc.awaited →
    (r.lastCycle = b.cycle ↔ acc.Spent (b.handle r))

namespace Keeps

variable {label : BoxLabel} {b : Box P D} {acc : Account D} {h : Handle}

/-- A handle that is out is live. -/
theorem live (hb : b.Keeps label acc) (hout : h ∈ acc.out) :
    ∃ r ∈ b.registrations, b.handle r = h ∧ b.live? h = some r := by
  rw [← hb.out] at hout
  exact live_of_mem_handles hb.inCycle.orderly.nodup hout

/-- A handle that is live is out. -/
theorem out_of_live (hb : b.Keeps label acc) {r : Registration D} (live : b.live? h = some r) :
    h ∈ acc.out := by
  rw [← hb.out]
  exact mem_handles_of_live live

/-- The next cycle would await the handles that are out. -/
theorem expected (hb : b.Keeps label acc) : b.expected = acc.out.length := by
  rw [← hb.out, length_handles]

/-- Fewer have deposited than were awaited if somebody has not. -/
theorem held_lt (hb : b.Keeps label acc) (hawaited : h ∈ acc.awaited) (hfresh : ¬ acc.Spent h) :
    acc.held.length < acc.awaited.length := by
  have hnodup : (h :: acc.held.map Prod.fst).Nodup :=
    List.nodup_cons.mpr ⟨hfresh, hb.inCycle.distinct⟩
  have hsub : h :: acc.held.map Prod.fst ⊆ acc.awaited :=
    List.cons_subset.mpr ⟨hawaited, fun g hg => hb.admits g hg⟩
  have hle := (List.subperm_of_subset hnodup hsub).length_le
  rwa [List.length_cons, List.length_map] at hle

/-- A box on which somebody awaited has not deposited is open. -/
theorem opened (hb : b.Keeps label acc) (hawaited : h ∈ acc.awaited) (hfresh : ¬ acc.Spent h) :
    b.phase = .opened := by
  refine (hb.inCycle.orderly.awaiting hb.inCycle.mode).mpr ?_
  have hlt := hb.held_lt hawaited hfresh
  have hcounted := hb.inCycle.counted
  omega

end Keeps

/-! ## Deposits -/

/-- The first look at a handle never speaks of an exhausted cycle. -/
theorem admission_unspoken {b : Box P D} {h : Handle} {r : Refusal}
    (hadm : b.admission h = .error r) (label : BoxLabel) (cycle : Nat) :
    r ≠ .cycleExhausted label cycle := by
  rintro rfl
  unfold Box.admission at hadm
  repeat' split at hadm
  all_goals cases hadm

/-- A count that is not used up accepts. -/
theorem outcome_countDown {b : Box P D} (cycle : Nat) (hleft : 0 < b.remaining) :
    (b.countDown cycle).outcome = .ok () := by
  by_cases hlast : b.remaining = 1
  · rw [countDown_of_last cycle hlast]
  · rw [countDown_of_more cycle (by omega)]

/-- A handle that is not spent deposits what its check has let pass. -/
theorem InCycle.accepts {b : Box P D} {awaited : Nat} {past : List (Handle × D)}
    (hb : b.InCycle awaited past) {h : Handle} {r : Registration D} (live : b.live? h = some r)
    (hphase : b.phase = .opened) (hunspent : r.lastCycle ≠ b.cycle) (value : D) :
    ∃ b', b'.InCycle awaited (past ++ [(h, value)]) ∧ b'.handles = b.handles ∧
      (b.keep h b.cycle value).countDown b.cycle = ⟨.ok (),
        if past.length + 1 = awaited then
          some ⟨b.label, b.cycle, listing b.handles (past ++ [(h, value)]), b.retrievals⟩
        else none, b'⟩ := by
  have haccepted : b.judge acceptAll h.task value = .ok () := by
    unfold judge
    split <;> rfl
  have hdeposit := deposit_of_live live hb.mode hphase hunspent haccepted
  rcases hb.deposit acceptAll h value with ⟨refusal, hr, -⟩ | ⟨b', hb', hhandles, -, hr⟩
  · -- the cycle is under way, so the count is not used up
    have hleft : 0 < b.remaining := (hb.orderly.awaiting hb.mode).mp hphase
    have hok := outcome_countDown (b := b.keep h b.cycle value) b.cycle hleft
    rw [← hdeposit, hr] at hok
    cases hok
  · exact ⟨b', hb', hhandles, hdeposit.symm.trans hr⟩

/-- What neither a count nor an opening touches: whose box it is, the tokens, and the stamps of the
registrations. -/
structure SameStamps (b b' : Box P D) : Prop where
  /-- whose box it is -/
  label : b'.label = b.label
  /-- the token of the next registration -/
  token : b'.nextToken = b.nextToken
  /-- the stamp of each handle -/
  stamps : ∀ s ∈ b'.registrations, ∃ r ∈ b.registrations,
    b'.handle s = b.handle r ∧ s.lastCycle = r.lastCycle

theorem SameStamps.refl (b : Box P D) : SameStamps b b :=
  ⟨rfl, rfl, fun s hs => ⟨s, hs, rfl, rfl⟩⟩

theorem sameStamps_shut (b : Box P D) : SameStamps b b.shut := by
  refine ⟨rfl, rfl, fun s hs => ?_⟩
  obtain ⟨r, hr, rfl⟩ := List.mem_map.mp hs
  exact ⟨r, hr, rfl, rfl⟩

theorem sameStamps_countDown (b : Box P D) (cycle : Nat) :
    SameStamps b (b.countDown cycle).box := by
  rcases Nat.lt_trichotomy b.remaining 1 with hleft | hleft | hleft
  · rw [countDown_of_none cycle (by omega)]
    exact .refl b
  · rw [countDown_of_last cycle hleft]
    have hshut := sameStamps_shut b
    exact ⟨hshut.label, hshut.token, hshut.stamps⟩
  · rw [countDown_of_more cycle hleft]
    have hsame := SameStamps.refl b
    exact ⟨hsame.label, hsame.token, hsame.stamps⟩

/-- A count stays in its cycle, and opens nothing. -/
theorem standing_countDown (b : Box P D) (cycle : Nat) :
    (b.countDown cycle).box.cycle = b.cycle ∧
      ((b.countDown cycle).box.phase = .opened → b.phase = .opened) := by
  rcases b.countDown_cases cycle with ⟨-, hs⟩ | ⟨_, -, -, hs⟩
  · refine ⟨congrArg Standing.cycle hs, fun hphase => ?_⟩
    exact (congrArg Standing.phase hs).symm.trans hphase
  · refine ⟨congrArg Standing.cycle hs, fun hphase => ?_⟩
    cases (congrArg Standing.phase hs).symm.trans hphase

namespace Keeps

variable {label : BoxLabel} {b : Box P D} {acc : Account D} {h : Handle}

/-- **The first look** at a handle refuses it, or finds that it is awaited in the cycle under
way. -/
theorem admission (hb : b.Keeps label acc) (h : Handle) (value : D) :
    (∃ r, b.admission h = .error r ∧ acc.Grants label ⟨h, value, none, .error r, none⟩) ∨
    b.admission h = .ok acc.number ∧ h ∈ acc.out ∧ h ∈ acc.awaited := by
  cases hadm : b.admission h with
  | ok cycle =>
    obtain ⟨r, live, -, hphase, rfl⟩ := admitted hadm
    have hout := hb.out_of_live live
    exact .inr ⟨congrArg Except.ok hb.number, hout, hb.steady hphase ▸ hout⟩
  | error r =>
    refine .inl ⟨r, rfl, .refused (admission_unspoken hadm) fun hout hawaited => ?_⟩
    obtain ⟨reg, hreg, rfl, live⟩ := hb.live hout
    have hmode : b.mode ≠ .read := by simp [hb.inCycle.mode]
    have hstamp := hb.stamps reg hreg hawaited
    have hnumber : b.cycle ≠ 0 := by
      rw [hb.number]
      exact Nat.ne_of_gt (hb.begun (List.ne_nil_of_mem hawaited))
    rw [Box.admission, live] at hadm
    dsimp only at hadm
    rw [if_neg hmode] at hadm
    by_cases hspent : acc.Spent (b.handle reg)
    · rw [if_pos ⟨hnumber, hstamp.mpr hspent⟩] at hadm
      obtain rfl := Except.error.inj hadm
      exact ⟨hspent, by rw [hb.label, hb.number]⟩
    · -- the cycle is still under way, so a handle that is not spent would be let in
      rw [if_neg fun hc => hspent (hstamp.mp hc.2),
        if_neg (Decidable.not_not.mpr (hb.opened hawaited hspent))] at hadm
      cases hadm

/-- Keeping a value stamps the handle that deposited and no other. -/
theorem stamps_keep (hb : b.Keeps label acc) (hout : h ∈ acc.out) (value : D)
    {s : Registration D} (hs : s ∈ (b.keep h b.cycle value).registrations)
    (hawaited : b.handle s ∈ acc.awaited) :
    s.lastCycle = b.cycle ↔ (acc.keep h value).Spent (b.handle s) := by
  obtain ⟨reg, hreg, rfl, -⟩ := hb.live hout
  obtain ⟨r, hr, rfl⟩ := List.mem_map.mp hs
  rw [Account.spent_keep]
  by_cases htask : r.task = (b.handle reg).task
  · -- the compute of the handle is registered once, so this is the handle's own registration
    obtain rfl := List.inj_on_of_nodup_map hb.inCycle.orderly.nodup hr hreg htask
    rw [if_pos htask]
    exact ⟨fun _ => .inr rfl, fun _ => rfl⟩
  · have hne : b.handle r ≠ b.handle reg := fun heq => htask (congrArg Handle.task heq)
    rw [if_neg htask] at hawaited ⊢
    rw [hb.stamps r hr hawaited]
    exact ⟨.inl, fun hor => hor.resolve_right hne⟩

/-- A handle that was awaited and has not deposited is counted, and the owner hears of the
completion if it was the last one. -/
theorem counts (hb : b.Keeps label acc) (hout : h ∈ acc.out) (hawaited : h ∈ acc.awaited)
    (hfresh : ¬ acc.Spent h) (value : D) :
    ∃ done b', (b.keep h b.cycle value).countDown b.cycle = ⟨.ok (), done, b'⟩ ∧
      (acc.keep h value).Ends label done ∧ b'.Keeps label (acc.keep h value) := by
  obtain ⟨reg, hreg, rfl, live⟩ := hb.live hout
  have hphase := hb.opened hawaited hfresh
  have hunspent : reg.lastCycle ≠ b.cycle := fun hc => hfresh ((hb.stamps reg hreg hawaited).mp hc)
  obtain ⟨b', hb', hhandles, hcount⟩ := hb.inCycle.accepts live hphase hunspent value
  have hstamps := (b.keep (b.handle reg) b.cycle value).sameStamps_countDown b.cycle
  obtain ⟨hcycle, hopen⟩ := (b.keep (b.handle reg) b.cycle value).standing_countDown b.cycle
  rw [hcount] at hstamps hcycle hopen
  have hadmits : ∀ g, (acc.keep (b.handle reg) value).Spent g → g ∈ acc.awaited := by
    intro g hg
    rcases Account.spent_keep.mp hg with hg | rfl
    · exact hb.admits g hg
    · exact hawaited
  have hends :=
    (acc.keep (b.handle reg) value).ends_listing label b.retrievals hb.nodup hb'.distinct
    hadmits
  refine ⟨_, b', hcount, ?_, hstamps.label.trans hb.label, hb', hhandles.trans hb.out,
    hcycle.trans hb.number, hb.begun, hb.nodup, fun g hg => hstamps.token ▸ hb.issued g hg, hadmits,
    fun hp => hb.steady (hopen hp), ?_⟩
  · rw [hb.out, hb.steady hphase, hb.number, hb.label]
    simpa [Account.keep] using hends
  · intro s hs hs'
    obtain ⟨r, hr, hsame, hstamp⟩ := hstamps.stamps s hs
    rw [hsame] at hs' ⊢
    rw [hstamp, hcycle]
    exact hb.stamps_keep hout value hr hs'

/-- **The second look** at a handle that was admitted in this cycle: it has deposited meanwhile and
is refused, or it deposits now. -/
theorem settle (hb : b.Keeps label acc) (hout : h ∈ acc.out) (hawaited : h ∈ acc.awaited)
    (value : D) :
    acc.Spent h ∧ b.settle h acc.number value =
      b.refuse (.doubleUse label h.task acc.number) ∨
    ¬ acc.Spent h ∧ ∃ done b', b.settle h acc.number value = ⟨.ok (), done, b'⟩ ∧
      (acc.keep h value).Ends label done ∧ b'.Keeps label (acc.keep h value) := by
  obtain ⟨reg, hreg, hhandle, live⟩ := hb.live hout
  have hstamp := hb.stamps reg hreg (hhandle ▸ hawaited)
  rw [hhandle] at hstamp
  rw [← hb.number, Box.settle, live]
  dsimp only
  by_cases hspent : acc.Spent h
  · rw [if_pos (hstamp.mpr hspent), hb.label]
    exact .inl ⟨hspent, rfl⟩
  · rw [if_neg fun hc => hspent (hstamp.mp hc)]
    exact .inr ⟨hspent, hb.counts hout hawaited hspent value⟩

end Keeps

/-! ## Checks are accounted for -/

/-- What is seen of a piece of a run accords with the account, and the box keeps it afterwards. -/
structure Follows (label : BoxLabel) (acc : Account D) (seen : List (Sight P D)) (b : Box P D) :
    Prop where
  /-- what is seen accords with the account -/
  accords : acc.Accords label seen
  /-- the box keeps the account afterwards -/
  keeps : b.Keeps label (acc.after seen)

/-- What is seen of a check, or of a deposit, follows the account. -/
def Course.Follows (label : BoxLabel) (acc : Account D) (c : Course P D) : Prop :=
  Box.Follows label acc (c.attempts.map .attempt) c.box

variable {label : BoxLabel} {b : Box P D} {acc : Account D} {h : Handle}

theorem Follows.append {seen more : List (Sight P D)} {b' : Box P D}
    (hseen : Follows label acc seen b) (hmore : Follows label (acc.after seen) more b') :
    Follows label acc (seen ++ more) b' where
  accords := Account.accords_append.mpr ⟨hseen.accords, hmore.accords⟩
  keeps := by
    rw [Account.after_append]
    exact hmore.keeps

/-- The second half of a deposit, after a check that followed the account. -/
theorem Course.Follows.conclude {checked : Course P D} (hchecked : checked.Follows label acc)
    (hout : h ∈ acc.out) (hawaited : h ∈ acc.awaited) (value : D) :
    (checked.conclude h acc.number value).Follows label acc := by
  obtain ⟨held, hheld⟩ := acc.after_attempts (P := P) checked.attempts
  have hkeeps := hchecked.keeps
  rw [hheld] at hkeeps
  unfold Course.Follows Course.conclude
  rw [List.map_append]
  refine Box.Follows.append hchecked ?_
  rw [hheld]
  cases houtcome : checked.outcome with
  | error r =>
    refine ⟨⟨.rejected, trivial⟩, ?_⟩
    change checked.box.Keeps label { acc with held := held ++ [] }
    rw [List.append_nil]
    exact hkeeps
  | ok =>
    rcases hkeeps.settle hout hawaited value with ⟨hspent, hr⟩ | ⟨hfresh, done, b', hr, hends, hb'⟩
    · change checked.box.settle h acc.number value = _ at hr
      dsimp only
      rw [hr]
      refine ⟨⟨.beaten hspent, trivial⟩, ?_⟩
      change checked.box.Keeps label { acc with held := held ++ [] }
      rw [List.append_nil]
      exact hkeeps
    · change checked.box.settle h acc.number value = _ at hr
      dsimp only
      rw [hr]
      exact ⟨⟨.accepted hawaited hfresh hends, trivial⟩, hb'⟩

/-- A deposit follows the account if its check does. -/
theorem follows_contend (hb : b.Keeps label acc) (h : Handle) (value : D) {check : P → Course P D}
    (hcheck : ∀ payload, (check payload).Follows label acc) :
    (b.contend h value check).Follows label acc := by
  rcases hb.admission h value with ⟨r, hadm, hgrants⟩ | ⟨hadm, hout, hawaited⟩
  · rw [contend, hadm]
    refine ⟨⟨hgrants, trivial⟩, ?_⟩
    change b.Keeps label { acc with held := acc.held ++ [] }
    rw [List.append_nil]
    exact hb
  · rw [contend, hadm]
    refine Course.Follows.conclude ?_ hout hawaited value
    cases b.payload with
    | none => exact ⟨trivial, hb⟩
    | some payload => exact hcheck payload

/-- **Every check follows the account**, however deep its deposits are nested. -/
theorem follows_scrutinize (s : Scrutiny P D) (hb : b.Keeps label acc) :
    (scrutinize s b).Follows label acc := by
  induction s generalizing b acc with
  | decide verdict => exact ⟨trivial, hb⟩
  | deposit h value check next ih_check ih_next =>
    have hfirst := follows_contend hb h value fun payload => ih_check payload hb
    unfold Course.Follows
    rw [scrutinize, List.map_append]
    exact Follows.append hfirst (ih_next _ hfirst.keeps)

/-! ## Moves are accounted for -/

/-- What stays as it is when no cycle starts and no deposit is accepted: where the box stands, and
all registrations that are neither new nor gone. -/
structure Stays (b b' : Box P D) : Prop where
  /-- where it stands -/
  standing : b'.standing = b.standing
  /-- tokens are issued in order -/
  token : b.nextToken ≤ b'.nextToken
  /-- a registration is old, or it has the token that was next -/
  registrations : ∀ s ∈ b'.registrations, b'.handle s = b.handle s ∧
    (s ∈ b.registrations ∨ s.token = b.nextToken)

theorem Stays.refl (b : Box P D) : Stays b b := ⟨rfl, Nat.le_refl _, fun _ hs => ⟨rfl, .inl hs⟩⟩

/-- So it is with every call on an accumulate box that is no deposit and starts no cycle. -/
theorem stays_perform (hmode : b.mode = .accumulate) {c : Call P D}
    (hother : ∀ check h value, c ≠ .deposit check h value) (hopens : ¬ (b.event c).opens) :
    Stays b (b.perform c).box := by
  cases c with
  | register task =>
    change Stays b (b.register task).box
    unfold register
    split
    · exact .refl b
    · refine ⟨rfl, Nat.le_succ _, fun s hs => ⟨rfl, ?_⟩⟩
      rcases List.mem_append.mp hs with hs | hs
      · exact .inl hs
      · exact .inr (congrArg Registration.token (List.mem_singleton.mp hs))
  | unregister h =>
    change Stays b (b.unregister h).box
    unfold unregister
    split
    · exact .refl b
    · exact ⟨rfl, Nat.le_refl _, fun s hs => ⟨rfl, .inl (List.mem_of_mem_filter hs)⟩⟩
  | publish payload =>
    rw [perform, publish_of_busy payload fun hphase => hopens (opens_of_idle hphase payload)]
    exact .refl b
  | close =>
    rw [perform, close_of_accumulate hmode]
    exact .refl b
  | retrieve h =>
    rcases b.retrieve_cases h with ⟨_, hr, -⟩ | ⟨_, -, -, hr⟩ <;> rw [perform, hr]
    · exact .refl b
    · exact ⟨rfl, Nat.le_refl _, fun _ hs => ⟨rfl, .inl hs⟩⟩
  | deposit check h value => exact absurd rfl (hother check h value)

/-- Such a call leaves the account as it is, but for the handles that are out. -/
theorem Keeps.call (hb : b.Keeps label acc) {c : Call P D}
    (hother : ∀ check h value, c ≠ .deposit check h value) (hopens : ¬ (b.event c).opens)
    (hidle : (b.event c).registers → b.phase = .idle) :
    (b.event c).completion = none ∧
      (b.perform c).box.Keeps label { acc with out := (b.event c).handlesAfter acc.out } := by
  have hdeposit : (b.event c).deposit? = none := by
    cases c with
    | deposit check h value => exact absurd rfl (hother check h value)
    | _ => rfl
  obtain ⟨hcycle, ⟨-, hnone⟩ | ⟨p, hp, -⟩⟩ := hb.inCycle.perform hopens
  · have hstays := stays_perform hb.inCycle.mode hother hopens
    have hout := handles_perform hb.inCycle.orderly.nodup c
    rw [hb.out] at hout
    rw [hdeposit, Option.toList_none, List.append_nil] at hcycle
    have hnumber : (b.perform c).box.cycle = b.cycle := congrArg Standing.cycle hstays.standing
    refine ⟨hnone, (congrArg Standing.label hstays.standing).trans hb.label, hcycle, hout,
      hnumber.trans hb.number, hb.begun, hb.nodup,
      fun h hh => Nat.lt_of_lt_of_le (hb.issued h hh) hstays.token, hb.admits, ?_, ?_⟩
    · intro hphase
      replace hphase : b.phase = .opened :=
        (congrArg Standing.phase hstays.standing).symm.trans hphase
      have hregisters : ¬ (b.event c).registers := by
        intro hr
        cases hphase.symm.trans (hidle hr)
      exact (Event.handlesAfter_of_not_registers hregisters _).trans (hb.steady hphase)
    · intro s hs hawaited
      obtain ⟨hhandle, hold | hnew⟩ := hstays.registrations s hs
      · rw [hhandle] at hawaited ⊢
        rw [hnumber]
        exact hb.stamps s hold hawaited
      · -- the token of a new handle is larger than that of any handle that was awaited
        have hlt : s.token < b.nextToken := hb.issued _ hawaited
        exact absurd hnew (Nat.ne_of_lt hlt)
  · cases hdeposit.symm.trans hp

theorem sameStamps_publish (b : Box P D) (payload : P) : SameStamps b (b.publish payload).box := by
  by_cases hphase : b.phase = .idle
  · by_cases hwaits : b.mode = .accumulate ∧ b.expected = 0
    · rw [publish_of_unattended payload hphase hwaits.1 hwaits.2]
      have hshut := sameStamps_shut b
      exact ⟨hshut.label, hshut.token, hshut.stamps⟩
    · rw [publish_of_idle payload hphase fun hm he => hwaits ⟨hm, he⟩]
      have hsame := SameStamps.refl b
      exact ⟨hsame.label, hsame.token, hsame.stamps⟩
  · rw [publish_of_busy payload hphase]
    exact .refl b

/-- An opening of an idle box starts the next cycle. -/
theorem publish_next (hphase : b.phase = .idle) (payload : P) :
    (b.publish payload).outcome = .ok (b.cycle + 1) ∧
      (b.publish payload).box.cycle = b.cycle + 1 := by
  by_cases hwaits : b.mode = .accumulate ∧ b.expected = 0
  · rw [publish_of_unattended payload hphase hwaits.1 hwaits.2]
    exact ⟨rfl, rfl⟩
  · rw [publish_of_idle payload hphase fun hm he => hwaits ⟨hm, he⟩]
    exact ⟨rfl, rfl⟩

/-- An opening starts the account of the next cycle. -/
theorem Keeps.publish (hb : b.Keeps label acc) (hphase : b.phase = .idle) (payload : P) :
    (b.publish payload).box.Keeps label acc.start := by
  have hcycle := InCycle.publish hb.inCycle.orderly hb.inCycle.mode payload hphase
  have hout : (b.publish payload).box.handles = b.handles :=
    (handles_perform hb.inCycle.orderly.nodup (.publish payload)).trans
      (Event.handlesAfter_of_not_registers (by simp [event, Event.registers]) _)
  have hnodup : acc.out.Nodup := by
    rw [← hb.out]
    refine List.Nodup.of_map Handle.task ?_
    rw [handles, List.map_map]
    exact hb.inCycle.orderly.nodup
  have hstamps := b.sameStamps_publish payload
  obtain ⟨-, hnumber⟩ := publish_next hphase payload
  rw [hb.expected] at hcycle
  refine ⟨hstamps.label.trans hb.label, hcycle, hout.trans hb.out,
    hnumber.trans (congrArg (· + 1) hb.number), fun _ => Nat.succ_pos _, hnodup, ?_,
    fun _ hnone => absurd hnone List.not_mem_nil, fun _ => rfl, ?_⟩
  · intro h hh
    obtain ⟨r, hr, rfl, -⟩ := hb.live hh
    rw [hstamps.token]
    exact hb.inCycle.orderly.issued r hr
  · -- nobody has deposited yet, and no stamp is of a cycle to come
    intro s hs _
    obtain ⟨r, hr, -, hstamp⟩ := hstamps.stamps s hs
    have hle := hb.inCycle.orderly.spent r hr
    rw [hstamp, hnumber]
    exact ⟨fun heq => absurd hle (by omega), fun hnone => absurd hnone List.not_mem_nil⟩

/-- An opening is seen as the start of the next cycle, and as its end if nobody is awaited. -/
theorem Keeps.ends_publish (hb : b.Keeps label acc) (hphase : b.phase = .idle) (payload : P) :
    acc.start.Ends label (b.publish payload).completion := by
  by_cases hnone : acc.out = []
  · rw [publish_of_unattended payload hphase hb.inCycle.mode (by rw [hb.expected, hnone]; rfl)]
    have hcomplete : acc.start.Complete := by
      intro h hh
      change h ∈ acc.out at hh
      rw [hnone] at hh
      exact absurd hh List.not_mem_nil
    refine ⟨⟨fun _ => hcomplete, fun _ => rfl⟩, fun c hc => ?_⟩
    obtain rfl := Option.some.inj hc
    refine ⟨hb.label, congrArg (· + 1) hb.number, ?_⟩
    change Delivers acc.out [] []
    rw [hnone]
    exact .nil
  · have hwaits : b.expected ≠ 0 := by
      rw [hb.expected]
      exact fun h => hnone (List.eq_nil_of_length_eq_zero h)
    rw [publish_of_idle payload hphase fun _ => hwaits]
    refine ⟨⟨nofun, fun hcomplete => ?_⟩, nofun⟩
    obtain ⟨h, hh⟩ := List.exists_mem_of_ne_nil _ hnone
    exact absurd (hcomplete h hh) List.not_mem_nil

/-- Every call that is no deposit follows the account. -/
theorem follows_call (hb : b.Keeps label acc) {c : Call P D}
    (hother : ∀ check h value, c ≠ .deposit check h value)
    (hidle : (b.event c).registers → b.phase = .idle) :
    Follows label acc [.call (b.event c)] (b.perform c).box := by
  have hunspoken : ∀ l n, (b.event c).outcome ≠ .error (.cycleExhausted l n) := by
    intro l n hexhausted
    obtain ⟨check, h, value, -, rfl, -⟩ := hb.inCycle.orderly.check_of_exhausted hexhausted
    exact hother check h value rfl
  by_cases hopens : (b.event c).opens
  · obtain ⟨hphase, payload, rfl⟩ := idle_of_opens hopens
    refine ⟨⟨⟨hunspoken, ?_⟩, trivial⟩, ?_⟩
    · rw [if_pos hopens]
      refine ⟨?_, hb.ends_publish hphase payload⟩
      rw [event, perform, ← hb.number]
      exact congrArg (Except.map Answer.cycle) (publish_next hphase payload).1
    · change (b.publish payload).box.Keeps label (if _ then _ else _)
      rw [if_pos hopens]
      exact hb.publish hphase payload
  · obtain ⟨hnone, hkeeps⟩ := hb.call hother hopens hidle
    refine ⟨⟨⟨hunspoken, ?_⟩, trivial⟩, ?_⟩
    · rw [if_neg hopens]
      exact hnone
    · change (b.perform c).box.Keeps label (if _ then _ else _)
      rw [if_neg hopens]
      exact hkeeps

/-- **Every move follows the account.** -/
theorem follows_move (hb : b.Keeps label acc) {m : Move P D}
    (hidle : ∀ c other, m = .call c other → (b.event c).registers → b.phase = .idle) :
    Follows label acc (b.move m).1 (b.move m).2 := by
  cases m with
  | call c other => exact follows_call hb other (hidle c other rfl)
  | deposit h value check =>
    exact follows_contend hb h value fun payload => follows_scrutinize (check payload) hb

/-- **Every run of moves follows the account**, if registrations come and go only between cycles. -/
theorem follows_moves (hb : b.Keeps label acc) {moves : List (Move P D)}
    (hidle : b.RegistersIdle moves) :
    Follows label acc (b.sights moves) (b.afterMoves moves) := by
  induction moves generalizing b acc with
  | nil => exact ⟨trivial, hb⟩
  | cons m moves ih =>
    obtain ⟨hmove, hrest⟩ := registersIdle_cons.mp hidle
    have hfirst := follows_move hb hmove
    exact hfirst.append (ih hfirst.keeps hrest)

theorem keeps_new (serial : Nat) (label : BoxLabel) :
    (new serial label .accumulate : Box P D).Keeps label .empty where
  label := rfl
  inCycle := ⟨orderly_new serial label .accumulate, rfl, rfl, List.nodup_nil, nofun, nofun⟩
  out := rfl
  number := rfl
  begun := nofun
  nodup := List.nodup_nil
  issued := nofun
  admits := nofun
  steady := nofun
  stamps := nofun

/-! ## Fairness -/

/-- What holds of a cycle whatever deposits race in it, as far as `during` goes: `number` is its
number, `out` are the handles that were out at its opening, and `done` is what the owner heard
then. -/
structure Fair (label : BoxLabel) (number : Nat) (out : List Handle)
    (done : Option (Completion D)) (during : List (Sight P D)) : Prop where
  /-- deposits are accepted only through handles that were out at the opening -/
  admits : (deposited during).map Prod.fst ⊆ out
  /-- no handle deposits twice -/
  distinct : ((deposited during).map Prod.fst).Nodup
  /-- while registrations are left alone, an attempt through such a handle is refused by its own
  check; otherwise it is accepted if the handle has not deposited, and refused if it has -/
  answers : ∀ {early a late}, during = early ++ .attempt a :: late → a.handle ∈ out →
    (∀ s ∈ early, ¬ s.registers) → a.outcome =
      match a.verdict with
      | some (.error r) => .error r
      | _ => if a.handle ∈ (deposited early).map Prod.fst
        then .error (.doubleUse label a.handle.task number) else .ok ()
  /-- the owner has heard of one completion if all those handles have deposited, and of none
  otherwise -/
  fires : (done.toList ++ announced during).length =
    if ∀ h ∈ out, h ∈ (deposited during).map Prod.fst then 1 else 0
  /-- what it heard is, for each handle in the order of registration, the value that was accepted -/
  delivers : ∀ c ∈ done.toList ++ announced during, c.label = label ∧ c.cycle = number ∧
    Delivers out (deposited during) c.deposits

/-- A cycle that is started at an account is fair. -/
theorem fair_of_accords {acc : Account D} {label : BoxLabel} {done : Option (Completion D)}
    {during : List (Sight P D)} (hends : acc.start.Ends label done)
    (hduring : acc.start.Accords label during) (hopens : ∀ s ∈ during, ¬ s.opens) :
    Fair label (acc.number + 1) acc.out done during := by
  have helapses := Account.elapses_after hduring hopens
  have hheld : (acc.start.after during).held = deposited during := helapses.held
  have hawaited : (acc.start.after during).awaited = acc.out := helapses.awaited
  have hnumber : (acc.start.after during).number = acc.number + 1 := helapses.number
  have hsound := helapses.sound ⟨List.nodup_nil, nofun⟩
  have hcomplete : (acc.start.after during).Complete ↔
      ∀ h ∈ acc.out, h ∈ (deposited during).map Prod.fst := by
    rw [Account.Complete, hawaited, ← hheld]
    rfl
  refine ⟨?_, ?_, ?_, ?_, ?_⟩
  · intro h hh
    rw [← hheld] at hh
    exact hawaited ▸ hsound.admits h hh
  · exact hheld ▸ hsound.distinct
  · rintro early a late rfl hout hsteady
    rw [Account.accords_append] at hduring
    rw [List.forall_mem_append] at hopens
    obtain ⟨hearly, hgrants, -⟩ := hduring
    have hbefore := Account.elapses_after hearly hopens.1
    have hhere : acc.start.after early =
        ⟨acc.out, acc.number + 1, acc.out, deposited early⟩ :=
      Account.ext (Account.out_after_of_not_registers hsteady acc.start) hbefore.number
        hbefore.awaited hbefore.held
    replace hgrants : (acc.start.after early).Grants label a := hgrants
    rw [hhere] at hgrants
    exact hgrants.answer hout hout
  · have hfires := helapses.fires
    rw [if_congr hcomplete rfl rfl] at hfires
    rw [List.length_append, Nat.add_comm, ← hfires]
    refine congrArg (_ + ·) ?_
    cases done with
    | none => rw [if_neg fun hall => Bool.false_ne_true (hends.isSome.mpr hall)]; rfl
    | some c => rw [if_pos (hends.isSome.mp rfl)]; rfl
  · intro c hc
    have hdelivers := helapses.delivers
    rw [hheld, hawaited, hnumber] at hdelivers
    rcases List.mem_append.mp hc with hc | hc
    · obtain ⟨hlabel, hcycle, hopening⟩ := hends.delivers c (Option.mem_toList.mp hc)
      exact ⟨hlabel, hcycle, hopening.mono⟩
    · exact hdelivers c hc

/-- **Races are fair.** Take an accumulate box, and any run of moves on it in which registrations
come and go only while it is idle; the check of each deposit may make any deposits of its own before
it decides, and these have checks in turn. Every cycle that the run starts is fair, and of an
exhausted cycle nobody speaks but a check. -/
theorem race_exact (serial : Nat) (label : BoxLabel) {moves : List (Move P D)}
    (hidle : (new serial label .accumulate).RegistersIdle moves) :
    (∀ before payload number done during late,
      (new serial label .accumulate).sights moves =
        before ++ .call ⟨.publish payload, .ok (.cycle number), done⟩ :: (during ++ late) →
      (∀ s ∈ during, ¬ s.opens) →
      Fair label number (handlesSeen before) done during) ∧
    ∀ s ∈ (new serial label .accumulate).sights moves, ¬ s.Exhausted := by
  have haccords := (follows_moves (keeps_new serial label) hidle).accords
  constructor
  · intro before payload number done during late hsplit hopens
    rw [hsplit, Account.accords_append] at haccords
    obtain ⟨-, ⟨-, houtcome, hends⟩, hrest⟩ := haccords
    have hout : (Account.empty.after before).out = handlesSeen before :=
      Account.out_after Account.empty before
    obtain rfl : number = (Account.empty.after before).number + 1 := by
      cases houtcome
      rfl
    rw [← hout]
    exact fair_of_accords hends (Account.accords_append.mp hrest).1 hopens
  · intro s hs
    obtain ⟨early, late, hsplit⟩ := List.append_of_mem hs
    rw [hsplit, Account.accords_append] at haccords
    exact haccords.2.1.not_exhausted

/-- The first compute deposits 10. While that is checked it deposits 11, and while that is checked
the second compute deposits 20. So 20 is accepted first, then 11, which completes the cycle, and 10
comes too late though its check lets it pass. -/
theorem race_exact_nested :
    let label : BoxLabel := ⟨⟨0⟩, .force⟩
    let one : Handle := ⟨0, ⟨1⟩, 1⟩
    let two : Handle := ⟨0, ⟨2⟩, 2⟩
    let setup : List (Move Unit Nat) :=
      [.call (.register ⟨1⟩) nofun, .call (.register ⟨2⟩) nofun, .call (.publish ()) nofun]
    let race : Move Unit Nat := .deposit one 10 fun _ =>
      .deposit one 11
        (fun _ => .deposit two 20 (fun _ => .decide (.ok ())) fun _ => .decide (.ok ()))
        fun _ => .decide (.ok ())
    let done : Completion Nat := ⟨label, 1, [(⟨1⟩, 11), (⟨2⟩, 20)], 0⟩
    let during : List (Sight Unit Nat) := [
      .attempt ⟨two, 20, some (.ok ()), .ok (), none⟩,
      .attempt ⟨one, 11, some (.ok ()), .ok (), some done⟩,
      .attempt ⟨one, 10, some (.ok ()), .error (.doubleUse label ⟨1⟩ 1), none⟩]
    (new 0 label .accumulate).RegistersIdle (setup ++ [race]) ∧
      Fair label 1 [one, two] none during := by
  intro label one two setup race done during
  have hidle : (new 0 label .accumulate).RegistersIdle (setup ++ [race]) := by
    refine registersIdle_cons.mpr ⟨fun _ _ _ _ => rfl, ?_⟩
    refine registersIdle_cons.mpr ⟨fun _ _ _ _ => rfl, ?_⟩
    refine registersIdle_cons.mpr ⟨fun _ _ _ _ => rfl, ?_⟩
    exact registersIdle_cons.mpr ⟨nofun, registersIdle_nil _⟩
  let opened : Box Unit Nat := ⟨0, label, .accumulate, .opened, 1, 2, 0,
    [⟨⟨1⟩, 1, 0, none⟩, ⟨⟨2⟩, 2, 0, none⟩], some (), 3⟩
  have hopened : (new 0 label .accumulate).afterMoves setup = opened := rfl
  have hrace : opened.sights [race] = during := rfl
  have hsights : (new 0 label .accumulate).sights (setup ++ [race]) =
      [.call ⟨.register ⟨1⟩, .ok (.handle one), none⟩,
        .call ⟨.register ⟨2⟩, .ok (.handle two), none⟩] ++
      .call ⟨.publish (), .ok (.cycle 1), none⟩ :: (during ++ []) := by
    rw [sights_append, hopened, hrace]
    rfl
  exact ⟨hidle, (race_exact 0 label hidle).1 _ _ _ _ _ _ hsights (by simp [during, Sight.opens])⟩

end Box

end PatchDynamics
