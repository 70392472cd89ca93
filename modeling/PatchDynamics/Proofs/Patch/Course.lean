import PatchDynamics.Proofs.Box.Completion
import PatchDynamics.Proofs.Patch.Protocol

/-!
# The course of a step

What a patch is in the middle of a step in which every registered compute reads positions and
deposits forces once: it is the patch as it was when the step began, with some retrievals counted
and some deposits held. Once the last deposit is in it is the patch at the end of the step. Both are
written down here as functions of the beginning, the retrievals and the deposits; neither depends on
the order of the deposits.

* `Box.holding`, `Box.deposit_holding` — the box of forces with some deposits in;
* `Patch.during`, `Patch.retrieve_during`, `Patch.deposit_during` — the patch.
-/

namespace PatchDynamics

namespace Box

variable {P D : Type} {b : Box P D}

/-! ## A box with some deposits in -/

/-- The registration with what its handle deposited in a cycle, if it did. -/
def noted (b : Box P D) (deposits : List (Handle × D)) (r : Registration D) : Registration D :=
  match deposits.lookup (b.handle r) with
  | some value => { r with lastCycle := b.cycle, value := some value }
  | none => r

/-- The box with some deposits held and with a number of deposits to come. -/
def noting (b : Box P D) (left : Nat) (deposits : List (Handle × D)) : Box P D :=
  { b with remaining := left, registrations := b.registrations.map (b.noted deposits) }

/-- The box with some deposits in, and otherwise as it was at the opening of the cycle. -/
def holding (b : Box P D) (deposits : List (Handle × D)) : Box P D :=
  b.noting (b.remaining - deposits.length) deposits

/-- The box after a cycle in which every registered compute has deposited. -/
def spent (b : Box P D) : Box P D :=
  { b with
    phase := .idle
    remaining := 0
    registrations := b.registrations.map fun r => { r with lastCycle := b.cycle, value := none } }

/-- An accumulate box at the opening of a cycle: it waits for every registered compute, and no
handle is spent. -/
structure Fresh (b : Box P D) : Prop where
  /-- the box is in order -/
  orderly : b.Orderly
  /-- it closes by deposits -/
  mode : b.mode = .accumulate
  /-- the cycle is under way -/
  phase : b.phase = .opened
  /-- every registered compute is waited for -/
  waiting : b.remaining = b.registrations.length
  /-- no handle is spent -/
  unspent : ∀ r ∈ b.registrations, r.lastCycle ≠ b.cycle

/-- A box that was idle is fresh once it is opened. -/
theorem fresh_start (hb : b.Orderly) (payload : P) (hmode : b.mode = .accumulate)
    (hphase : b.phase = .idle) (hsome : b.expected ≠ 0) : (b.start payload).Fresh where
  orderly := hb.start payload hphase fun _ => hsome
  mode := hmode
  phase := rfl
  waiting := rfl
  unspent := fun r hr => Nat.ne_of_lt (Nat.lt_succ_of_le (hb.spent r hr))

@[simp] theorem holding_nil (b : Box P D) : b.holding [] = b := by
  have hsame : b.noted [] = id := rfl
  rw [holding, noting, hsame, List.map_id]
  rfl

theorem handle_noted (b : Box P D) (deposits : List (Handle × D)) (r : Registration D) :
    b.handle (b.noted deposits r) = b.handle r := by
  rw [noted]
  split <;> rfl

theorem handles_holding (b : Box P D) (deposits : List (Handle × D)) :
    (b.holding deposits).handles = b.handles := by
  rw [handles, holding, noting, List.map_map]
  exact List.map_congr_left fun r _ => b.handle_noted deposits r

theorem tasks_holding (b : Box P D) (deposits : List (Handle × D)) :
    (b.holding deposits).tasks = b.tasks := by
  rw [← map_task_handles, handles_holding, map_task_handles]

/-- Handles that are out tell the computes apart. -/
theorem handle_inj (nodup : b.tasks.Nodup) {r s : Registration D} (hr : r ∈ b.registrations)
    (hs : s ∈ b.registrations) (htask : r.task = s.task) : r = s :=
  List.inj_on_of_nodup_map nodup hr hs htask

namespace Fresh

variable {deposits : List (Handle × D)} {h : Handle} {value : D}
  {check : ComputeId → P → D → Except Refusal Unit}

theorem live_holding (hb : b.Fresh) (hh : h ∈ b.handles) (hnew : h ∉ deposits.map Prod.fst) :
    ∃ r, (b.holding deposits).live? h = some r ∧ r.lastCycle ≠ b.cycle := by
  have hnodup : (b.holding deposits).tasks.Nodup := by
    rw [tasks_holding]
    exact hb.orderly.nodup
  have hout : h ∈ (b.holding deposits).handles := by
    rw [handles_holding]
    exact hh
  obtain ⟨s, hs, hhandle, live⟩ := live_of_mem_handles hnodup hout
  obtain ⟨r, hr, rfl⟩ := List.mem_map.mp hs
  have hhandle : b.handle r = h := (b.handle_noted deposits r).symm.trans hhandle
  refine ⟨_, live, ?_⟩
  rw [noted, hhandle, InCycle.lookup_of_not_mem hnew]
  exact hb.unspent r hr

/-- What the registrations note once one more deposit is kept. -/
theorem noted_keep (hb : b.Fresh) (hh : h ∈ b.handles) (hnew : h ∉ deposits.map Prod.fst)
    {r : Registration D} (hr : r ∈ b.registrations) :
    (if (b.noted deposits r).task = h.task then
      { b.noted deposits r with lastCycle := b.cycle, value := some value }
    else b.noted deposits r) = b.noted (deposits ++ [(h, value)]) r := by
  have htask : (b.noted deposits r).task = r.task :=
    congrArg Handle.task (b.handle_noted deposits r)
  have hlookup := InCycle.lookup_of_not_mem hnew
  rw [htask]
  by_cases heq : r.task = h.task
  -- the registration of the handle that deposits
  · obtain ⟨s, hs, rfl, -⟩ := live_of_mem_handles hb.orderly.nodup hh
    obtain rfl := handle_inj hb.orderly.nodup hr hs heq
    rw [if_pos heq, noted, noted, List.lookup_append, hlookup]
    simp
  -- any other registration
  · have hne : (b.handle r == h) = false :=
      beq_eq_false_iff_ne.mpr fun hsame => heq (congrArg Handle.task hsame)
    rw [if_neg heq, noted, noted, List.lookup_append, List.lookup_cons, hne]
    simp

/-- A deposit that is kept is held. -/
theorem keep_noting (hb : b.Fresh) (hh : h ∈ b.handles) (hnew : h ∉ deposits.map Prod.fst)
    (left : Nat) :
    (b.noting left deposits).keep h b.cycle value =
      b.noting left (deposits ++ [(h, value)]) := by
  have hregistrations : ((b.noting left deposits).keep h b.cycle value).registrations =
      (b.noting left (deposits ++ [(h, value)])).registrations := by
    rw [keep, noting, noting, List.map_map]
    exact List.map_congr_left fun r hr => hb.noted_keep hh hnew hr
  dsimp only [keep] at hregistrations ⊢
  rw [hregistrations]
  rfl

/-- No value is held before the first deposit. -/
theorem value_eq_none (hb : b.Fresh) {r : Registration D} (hr : r ∈ b.registrations) :
    r.value = none := by
  by_contra hvalue
  exact hb.unspent r hr (hb.orderly.holding r hr hvalue).2.2

/-- What is collected when some deposits are held. -/
theorem collected_noting (hb : b.Fresh) (left : Nat) (deposits : List (Handle × D)) :
    (b.noting left deposits).collected = listing b.handles deposits := by
  have hhandles : (b.noting left deposits).handles = b.handles := b.handles_holding deposits
  rw [← hhandles]
  refine InCycle.collected_eq fun r hr => ?_
  obtain ⟨s, hs, rfl⟩ := List.mem_map.mp hr
  rw [show (b.noting left deposits).handle _ = b.handle _ from rfl, handle_noted, noted]
  cases hlookup : deposits.lookup (b.handle s) with
  | none => exact hb.value_eq_none hs
  | some v => rfl

/-- When every handle has deposited, the box is spent at the end of the cycle. -/
theorem emptied_noting (left : Nat) (hall : ∀ h ∈ b.handles, h ∈ deposits.map Prod.fst) :
    (b.noting left deposits).emptied = b.spent := by
  have hregistrations : (b.noting left deposits).emptied.registrations = b.spent.registrations := by
    rw [emptied, shut, noting, spent, List.map_map]
    refine List.map_congr_left fun r hr => ?_
    have hmem := hall (b.handle r) (List.mem_map_of_mem hr)
    rw [Function.comp, noted]
    cases hlookup : deposits.lookup (b.handle r) with
    | none => exact absurd hmem (InCycle.not_mem_of_lookup hlookup)
    | some v => rfl
  rw [emptied, shut] at hregistrations ⊢
  rw [hregistrations]
  rfl

/-- A deposit of an admissible value is held and counted. -/
theorem deposit_eq (hb : b.Fresh) (hh : h ∈ b.handles) (hnew : h ∉ deposits.map Prod.fst)
    (hjudge : b.judge check h.task value = .ok ()) :
    (b.holding deposits).deposit check h value =
      (b.noting (b.remaining - deposits.length) (deposits ++ [(h, value)])).countDown b.cycle := by
  obtain ⟨r, live, hfresh⟩ := hb.live_holding hh hnew
  rw [← hb.keep_noting hh hnew]
  exact deposit_of_live live hb.mode hb.phase hfresh hjudge

/-- **A deposit before the last** is held. -/
theorem deposit_holding (hb : b.Fresh) (hh : h ∈ b.handles) (hnew : h ∉ deposits.map Prod.fst)
    (hjudge : b.judge check h.task value = .ok ()) (hmore : deposits.length + 1 < b.expected) :
    (b.holding deposits).deposit check h value =
      ⟨.ok (), none, b.holding (deposits ++ [(h, value)])⟩ := by
  have hwaiting : b.remaining = b.expected := hb.waiting
  rw [hb.deposit_eq hh hnew hjudge, countDown_of_more, holding, List.length_append, Nat.sub_add_eq]
  · rfl
  · change 1 < b.remaining - deposits.length
    omega

/-- **The last deposit** ends the cycle. -/
theorem deposit_last (hb : b.Fresh) (hh : h ∈ b.handles) (hnew : h ∉ deposits.map Prod.fst)
    (hjudge : b.judge check h.task value = .ok ()) (hlast : deposits.length + 1 = b.expected)
    (hall : ∀ g ∈ b.handles, g ∈ (deposits ++ [(h, value)]).map Prod.fst) :
    (b.holding deposits).deposit check h value =
      ⟨.ok (), some ⟨b.label, b.cycle, listing b.handles (deposits ++ [(h, value)]),
        b.retrievals⟩, b.spent⟩ := by
  have hwaiting : b.remaining = b.expected := hb.waiting
  rw [hb.deposit_eq hh hnew hjudge, countDown_of_last, hb.collected_noting, emptied_noting _ hall]
  · rfl
  · change b.remaining - deposits.length = 1
    omega

end Fresh

/-! ## The order of deposits -/

/-- What is deposited under a handle does not depend on the order, where no handle deposits
twice. -/
theorem lookup_perm {deposits others : List (Handle × D)} (hperm : deposits.Perm others)
    (distinct : (deposits.map Prod.fst).Nodup) (h : Handle) :
    deposits.lookup h = others.lookup h := by
  induction hperm with
  | nil => rfl
  | cons p _ ih =>
    rw [List.map_cons, List.nodup_cons] at distinct
    rw [List.lookup_cons, List.lookup_cons, ih distinct.2]
  | swap p q l =>
    rw [List.map_cons, List.map_cons, List.nodup_cons, List.mem_cons, not_or] at distinct
    rw [List.lookup_cons, List.lookup_cons, List.lookup_cons, List.lookup_cons]
    -- the handle is at most one of the two
    by_cases hp : h = p.1
    · have hq : (h == q.1) = false := beq_eq_false_iff_ne.mpr fun hq => distinct.1.1 (hq ▸ hp)
      rw [hq]
    · rw [beq_eq_false_iff_ne.mpr hp]
  | trans hfirst _ ih ih' =>
    rw [ih distinct, ih' ((hfirst.map _).nodup_iff.mp distinct)]

/-- What is listed does not depend on the order of the deposits. -/
theorem listing_perm (out : List Handle) {deposits others : List (Handle × D)}
    (hperm : deposits.Perm others) (distinct : (deposits.map Prod.fst).Nodup) :
    listing out deposits = listing out others :=
  List.filterMap_congr fun h _ => by rw [lookup_perm hperm distinct h]

end Box

namespace Patch

/-! ## A patch in the course of a step -/

/-- A patch at the beginning of a step in which it awaits deposits: its boxes are open, and it holds
nothing yet. -/
structure Begun (p : Patch) : Prop where
  /-- the patch is in a step -/
  stands : p.Stands .opened
  /-- the boxes are in order -/
  orderly : p.Orderly
  /-- no force is deposited yet -/
  forces : p.forceBox.Fresh
  /-- somebody is to deposit -/
  awaits : p.forceBox.expected ≠ 0
  /-- the positions are published -/
  published : p.positionBox.payload = some p.atoms
  /-- nobody has read them yet -/
  unread : p.positionBox.retrievals = 0
  /-- deposits are to cover the atoms -/
  sized : ∃ frame, p.forceBox.payload = some frame ∧ frame.atoms = p.size

/-- The patch with some retrievals counted and some deposits held. -/
def midStep (p : Patch) (retrievals : Nat) (deposits : List (Handle × ForceDeposit)) : Patch :=
  { p with
    positionBox := { p.positionBox with retrievals := retrievals }
    forceBox := p.forceBox.holding deposits }

/-- The deposits in the order in which they are summed. -/
def inOrder (p : Patch) (deposits : List (Handle × ForceDeposit)) : List ForceDeposit :=
  (Box.listing p.forceBox.handles deposits).map Prod.snd

/-- The patch at the end of the step, with some retrievals counted and all deposits summed. -/
def stepEnded (p : Patch) (retrievals : Nat) (deposits : List (Handle × ForceDeposit)) : Patch :=
  (p.midStep retrievals []).ended p.forceBox.spent (p.inOrder deposits)

/-- The patch in the course of the step. -/
def during (p : Patch) (retrievals : Nat) (deposits : List (Handle × ForceDeposit)) : Patch :=
  if deposits.length < p.forceBox.expected then p.midStep retrievals deposits
  else p.stepEnded retrievals deposits

theorem begun_of_stands {p : Patch} (h : p.Stands .idle) (ho : p.Orderly)
    (hsome : p.forceBox.expected ≠ 0) (tag : UInt32) : (p.begun tag).Begun where
  stands := h.begun tag
  orderly := ho.begun h tag hsome
  forces := Box.fresh_start ho.forces _ h.force_mode h.force_phase hsome
  awaits := hsome
  published := rfl
  unread := rfl
  sized := ⟨_, rfl, rfl⟩

namespace Begun

variable {p : Patch} {retrievals : Nat} {deposits : List (Handle × ForceDeposit)} {h : Handle}
  {d : ForceDeposit}

theorem during_of_lt (hmore : deposits.length < p.forceBox.expected) :
    p.during retrievals deposits = p.midStep retrievals deposits := if_pos hmore

theorem during_of_not_lt (hall : ¬ deposits.length < p.forceBox.expected) :
    p.during retrievals deposits = p.stepEnded retrievals deposits := if_neg hall

/-- **A retrieval** in the course of the step reads the positions published at its beginning. -/
theorem retrieve_during (hp : p.Begun) (hh : h ∈ p.positionBox.handles)
    (hmore : deposits.length < p.forceBox.expected) :
    (p.during retrievals deposits).retrievePositions h =
      ⟨.ok p.atoms, [], p.during (retrievals + 1) deposits⟩ := by
  obtain ⟨r, -, -, live⟩ := Box.live_of_mem_handles hp.orderly.positions.nodup hh
  have hreply : (p.midStep retrievals deposits).positionBox.retrieve h = _ :=
    Box.retrieve_of_live live hp.stands.position_phase hp.published
  rw [during_of_lt hmore, during_of_lt hmore, retrievePositions, hreply]
  rfl

/-- **A deposit** in the course of the step is held, and the last one ends the step. -/
theorem deposit_during (hp : p.Begun) (hh : h ∈ p.forceBox.handles)
    (hnew : h ∉ deposits.map Prod.fst) (hfits : d.forces.length = p.size)
    (hmore : deposits.length < p.forceBox.expected)
    (hall : deposits.length + 1 = p.forceBox.expected →
      ∀ g ∈ p.forceBox.handles, g ∈ (deposits ++ [(h, d)]).map Prod.fst) :
    (p.during retrievals deposits).deposit h d =
      ⟨.ok (),
        if deposits.length + 1 = p.forceBox.expected then
          announcement p.id (p.sums.addAll (p.inOrder (deposits ++ [(h, d)])))
        else [],
        p.during retrievals (deposits ++ [(h, d)])⟩ := by
  have hjudge : p.forceBox.judge (fitsFrame p.id) h.task d = .ok () := by
    obtain ⟨frame, hframe, hatoms⟩ := hp.sized
    rw [Box.judge, hframe]
    exact if_pos (hfits.trans hatoms.symm)
  have hlength : (deposits ++ [(h, d)]).length = deposits.length + 1 := List.length_append
  rw [during_of_lt hmore, deposit]
  by_cases hlast : deposits.length + 1 = p.forceBox.expected
  -- the last deposit completes the cycle of the box, and the patch ends its step
  · have hreply : (p.midStep retrievals deposits).forceBox.deposit
        (fitsFrame (p.midStep retrievals deposits).id) h d = _ :=
      hp.forces.deposit_last hh hnew hjudge hlast (hall hlast)
    have hreading : (p.midStep retrievals deposits).Reading :=
      have hreading := hp.stands.reading
      ⟨hreading.1, hreading.2, hreading.3, hreading.4, hreading.5⟩
    have hcycle : p.forceBox.cycle = p.sums.step :=
      (congrArg Box.Standing.cycle hp.stands.force).trans hp.stands.summed.symm
    rw [if_pos hlast, during_of_not_lt (by omega), hreply, afterForces_of_completion hreading rfl,
      announcement, step_addAll, ← hcycle]
    rfl
  -- any deposit before it is only held
  · have hreply : (p.midStep retrievals deposits).forceBox.deposit
        (fitsFrame (p.midStep retrievals deposits).id) h d = _ :=
      hp.forces.deposit_holding hh hnew hjudge (by omega)
    rw [if_neg hlast, during_of_lt (by omega), hreply, afterForces_of_none rfl]
    rfl

end Begun

end Patch

end PatchDynamics
