import PatchDynamics.Failure
import PatchDynamics.Proofs.Patch.Protocol

/-!
# What a step publishes

From the beginning of a step until its forces are final, a patch counts its atoms in four places:
the list itself, the positions that its boxes hand out, the frame that deposits are sized by, and
the sums that deposits are added to. The addition pairs vectors off and does not look at lengths.
This file shows that the four places agree at every moment of every run:

* `Box.Retains`, `Patch.Retains` — what calls leave alone while a step is under way;
* `Publishes` — the invariant of a step: what the boxes hold, and that what is deposited fits;
* `ForceSums.Level` — the invariant of the sums: the channels are equally long;
* `Consistent`, `Reduces` — what follows for those who read, edit, deposit and add;
* `publication_consistent` — the same for all runs.
-/

namespace PatchDynamics

/-! ## Boxes -/

namespace Box

variable {P D : Type} {b : Box P D} {h : Handle} {good : D → Prop}

/-- A box and what became of it: the same payload, and no value that was not held before. -/
structure Retains (b b' : Box P D) : Prop where
  /-- the payload is the same -/
  payload : b'.payload = b.payload
  /-- registrations that hold values are from before -/
  held : ∀ r ∈ b'.registrations, r.value ≠ none → r ∈ b.registrations

theorem Retains.refl (b : Box P D) : b.Retains b := ⟨rfl, fun _ hr _ => hr⟩

theorem retains_register (b : Box P D) (task : ComputeId) : b.Retains (b.register task).box := by
  unfold register
  split
  · exact .refl b
  · refine ⟨rfl, fun r hr hvalue => ?_⟩
    rcases List.mem_append.mp hr with hr | hr
    · exact hr
    -- a new registration holds nothing
    · rw [List.mem_singleton.mp hr] at hvalue
      exact absurd rfl hvalue

theorem retains_unregister (b : Box P D) (h : Handle) : b.Retains (b.unregister h).box := by
  unfold unregister
  split
  · exact .refl b
  · exact ⟨rfl, fun r hr _ => (List.mem_filter.mp hr).1⟩

theorem retains_retrieve (b : Box P D) (h : Handle) : b.Retains (b.retrieve h).box := by
  rcases b.retrieve_cases h with ⟨_, hr, -⟩ | ⟨_, -, -, hr⟩ <;> rw [hr]
  · exact .refl b
  · exact ⟨rfl, fun _ hr _ => hr⟩

/-- A cycle that ends with its opening lists nothing. -/
theorem deposits_publish (b : Box P D) {payload : P} {c : Completion D}
    (hc : (b.publish payload).completion = some c) : c.deposits = [] := by
  unfold publish at hc
  split at hc
  · cases hc
  · dsimp only at hc
    split at hc
    · rw [← Option.some.inj hc]
    · cases hc

/-- In a cycle, live handles read the payload, and no others do. -/
theorem retrieve_ok_iff {payload x : P} (hphase : b.phase = .opened)
    (hpayload : b.payload = some payload) :
    (b.retrieve h).outcome = .ok x ↔ (b.live? h).isSome ∧ x = payload := by
  cases live : b.live? h with
  | none => simp [retrieve, live, refuse]
  | some r =>
    rw [retrieve_of_live live hphase hpayload]
    exact ⟨fun heq => ⟨rfl, (Except.ok.inj heq).symm⟩, fun hsome => congrArg Except.ok hsome.2.symm⟩

/-- Nobody reads a box that is not open. -/
theorem retrieve_of_not_opened {x : P} (hphase : b.phase ≠ .opened) :
    (b.retrieve h).outcome ≠ .ok x := by
  rcases b.retrieve_cases h with ⟨_, hr, -⟩ | ⟨_, hopen, -⟩
  · rw [hr]
    exact nofun
  · exact absurd hopen hphase

/-- All values that are held are good. -/
def HoldsOnly (good : D → Prop) (b : Box P D) : Prop :=
  ∀ r ∈ b.registrations, ∀ value, r.value = some value → good value

theorem HoldsOnly.retains {b' : Box P D} (hb : b.HoldsOnly good) (h : b.Retains b') :
    b'.HoldsOnly good :=
  fun r hr value hvalue => hb r (h.held r hr (by simp [hvalue])) value hvalue

/-- A box between cycles holds nothing. -/
theorem Orderly.holdsOnly (hb : b.Orderly) (hphase : b.phase ≠ .opened) (good : D → Prop) :
    b.HoldsOnly good := by
  intro r hr value hvalue
  rw [hb.value_of_not_opened hphase hr] at hvalue
  cases hvalue

theorem HoldsOnly.keep (hb : b.HoldsOnly good) {value : D} (hvalue : good value) (cycle : Nat) :
    (b.keep h cycle value).HoldsOnly good := by
  intro r hr v hv
  obtain ⟨s, hs, rfl⟩ := List.mem_map.mp hr
  split at hv
  · obtain rfl := Option.some.inj hv
    exact hvalue
  · exact hb s hs v hv

theorem HoldsOnly.collected (hb : b.HoldsOnly good) {x : ComputeId × D} (hx : x ∈ b.collected) :
    good x.2 := by
  obtain ⟨r, hr, hmap⟩ := List.mem_filterMap.mp hx
  obtain ⟨value, hvalue, rfl⟩ := Option.map_eq_some_iff.mp hmap
  exact hb r hr value hvalue

theorem HoldsOnly.countDown (hb : b.HoldsOnly good) (cycle : Nat) :
    (b.countDown cycle).box.HoldsOnly good ∧ (b.countDown cycle).box.payload = b.payload ∧
      ∀ c, (b.countDown cycle).completion = some c → ∀ x ∈ c.deposits, good x.2 := by
  rcases Nat.lt_trichotomy b.remaining 1 with hleft | hleft | hleft
  · rw [countDown_of_none cycle (by omega)]
    exact ⟨hb, rfl, nofun⟩
  · rw [countDown_of_last cycle hleft]
    refine ⟨fun r hr value hvalue => ?_, rfl, fun c hc x hx => ?_⟩
    · obtain ⟨s, -, rfl⟩ := List.mem_map.mp hr
      cases hvalue
    · obtain rfl := Option.some.inj hc
      exact hb.collected hx
  · rw [countDown_of_more cycle hleft]
    exact ⟨hb, rfl, nofun⟩

/-- **What deposits hand over**: where the check lets only good values pass, only good values are
held, and only good values are in a completion. -/
theorem HoldsOnly.deposit (hb : b.HoldsOnly good)
    {check : ComputeId → P → D → Except Refusal Unit} {value : D}
    (hcheck : b.judge check h.task value = .ok () → good value) :
    (b.deposit check h value).box.HoldsOnly good ∧
      (b.deposit check h value).box.payload = b.payload ∧
      ∀ c, (b.deposit check h value).completion = some c → ∀ x ∈ c.deposits, good x.2 := by
  rcases b.deposit_cases check h value with ⟨_, hr, -⟩ | ⟨_, -, -, -, -, hjudge, hr⟩
  · rw [hr]
    exact ⟨hb, rfl, nofun⟩
  · rw [hr]
    exact (hb.keep (hcheck hjudge) b.cycle).countDown b.cycle

end Box

/-! ## Sums -/

namespace ForceSums

variable {s : ForceSums} {n : Nat}

/-- Every channel has this many entries. -/
def Level (s : ForceSums) (n : Nat) : Prop := ∀ channel, (s.channel channel).length = n

/-- One entry of a list of vectors. An index past the end is a fault. -/
def entryAt (l : List Vec3) (i : Nat) : Except Failure Vec3 :=
  match l[i]? with
  | some v => .ok v
  | .none => .error (.fault .outOfBounds)

/-- The total force on the atom at an index, with each channel looked up at that index. -/
def totalAt (s : ForceSums) (i : Nat) : Except Failure Vec3 := do
  let normal ← entryAt s.normal i
  let nonbonded ← entryAt s.nonbonded i
  let slow ← entryAt s.slow i
  return Vec3.zero + normal + nonbonded + slow

theorem level_none : ForceSums.none.Level 0 := fun channel => by cases channel <;> rfl

theorem channel_zeros (step n : Nat) (channel : Channel) :
    (zeros step n).channel channel = List.replicate n Vec3.zero := by
  cases channel <;> rfl

theorem level_zeros (step n : Nat) : (zeros step n).Level n := fun channel => by
  rw [channel_zeros, List.length_replicate]

/-- One more deposit is added to its channel, and the others stay as they are. -/
theorem channel_add (s : ForceSums) (d : ForceDeposit) (channel : Channel) :
    (s.add d).channel channel =
      if d.channel = channel then accumulate (s.channel channel) d.forces
      else s.channel channel := by
  rw [add]
  cases d.channel <;> cases channel <;> rfl

theorem addAll_cons (s : ForceSums) (d : ForceDeposit) (deposits : List ForceDeposit) :
    s.addAll (d :: deposits) = (s.add d).addAll deposits := rfl

theorem Level.add (h : s.Level n) (d : ForceDeposit) : (s.add d).Level n := fun channel => by
  rw [channel_add]
  split
  · rw [length_accumulate, h channel]
  · exact h channel

theorem Level.addAll (h : s.Level n) (deposits : List ForceDeposit) :
    (s.addAll deposits).Level n := by
  induction deposits generalizing s with
  | nil => exact h
  | cons d deposits ih => exact ih (h.add d)

theorem Level.length_total (h : s.Level n) : s.total.length = n := by
  have hnormal : s.normal.length = n := h .normal
  have hnonbonded : s.nonbonded.length = n := h .nonbonded
  have hslow : s.slow.length = n := h .slow
  rw [total, List.length_zipWith, List.length_zipWith, hnormal, hnonbonded, hslow, Nat.min_self,
    Nat.min_self]

/-- **A total is never looked up out of bounds** while the channels are equally long. -/
theorem Level.totalAt (h : s.Level n) {i : Nat} (hi : i < n) :
    ∃ v, s.totalAt i = .ok v ∧ s.total[i]? = some v := by
  have hentry : ∀ channel, ∃ v, (s.channel channel)[i]? = some v := fun channel =>
    ⟨_, List.getElem?_eq_getElem (by rw [h channel]; exact hi)⟩
  obtain ⟨a, ha⟩ := hentry .normal
  obtain ⟨b, hb⟩ := hentry .nonbonded
  obtain ⟨c, hc⟩ := hentry .slow
  dsimp only [channel] at ha hb hc
  refine ⟨Vec3.zero + a + b + c, ?_, ?_⟩
  · rw [ForceSums.totalAt, entryAt, ha, entryAt, hb, entryAt, hc]
    rfl
  · rw [total, List.getElem?_zipWith, List.getElem?_zipWith, ha, hb, hc]

end ForceSums

namespace Patch

variable {p q : Patch} {phase : Phase} {list averages : List Atom}

/-! ## What calls leave alone in a step -/

/-- A patch and what became of it in the same step: the same lists, the same payloads and the same
sums, and no deposit that was not held before. -/
structure Retains (p q : Patch) : Prop where
  /-- what was settled when the patch was made -/
  settled : p.Settled q
  /-- the step -/
  step : q.step = p.step
  /-- the atoms -/
  atoms : q.atoms = p.atoms
  /-- the box of positions -/
  positions : p.positionBox.Retains q.positionBox
  /-- the box of averaged positions -/
  averages : p.averageBox.Retains q.averageBox
  /-- the box of forces -/
  forces : p.forceBox.Retains q.forceBox
  /-- the sums -/
  sums : q.sums = p.sums

theorem Retains.refl (p : Patch) : p.Retains p :=
  ⟨⟨rfl, rfl⟩, rfl, rfl, .refl _, .refl _, .refl _, rfl⟩

theorem retains_register (p : Patch) (kind : BoxKind) (task : ComputeId) :
    p.Retains (p.register kind task).patch := by
  cases kind with
  | position =>
    rw [register]
    split
    · exact .refl p
    · exact ⟨⟨rfl, rfl⟩, rfl, rfl, p.positionBox.retains_register task, .refl _, .refl _, rfl⟩
  | avgPosition =>
    rw [register]
    split
    · exact .refl p
    · exact ⟨⟨rfl, rfl⟩, rfl, rfl, .refl _, p.averageBox.retains_register task, .refl _, rfl⟩
  | force =>
    rw [register]
    split
    · exact .refl p
    · exact ⟨⟨rfl, rfl⟩, rfl, rfl, .refl _, .refl _, p.forceBox.retains_register task, rfl⟩

theorem retains_unregister (p : Patch) (kind : BoxKind) (h : Handle) :
    p.Retains (p.unregister kind h).patch := by
  cases kind with
  | position =>
    rw [unregister]
    split
    · exact .refl p
    · exact ⟨⟨rfl, rfl⟩, rfl, rfl, p.positionBox.retains_unregister h, .refl _, .refl _, rfl⟩
  | avgPosition =>
    rw [unregister]
    split
    · exact .refl p
    · exact ⟨⟨rfl, rfl⟩, rfl, rfl, .refl _, p.averageBox.retains_unregister h, .refl _, rfl⟩
  | force =>
    rw [unregister]
    split
    · exact .refl p
    · exact ⟨⟨rfl, rfl⟩, rfl, rfl, .refl _, .refl _, p.forceBox.retains_unregister h, rfl⟩

theorem retains_retrieve (p : Patch) (kind : BoxKind) (h : Handle) :
    p.Retains (p.perform (.retrieve kind h)).2 := by
  cases kind with
  | position =>
    exact ⟨⟨rfl, rfl⟩, rfl, rfl, p.positionBox.retains_retrieve h, .refl _, .refl _, rfl⟩
  | avgPosition =>
    exact ⟨⟨rfl, rfl⟩, rfl, rfl, .refl _, p.averageBox.retains_retrieve h, .refl _, rfl⟩
  | force =>
    rw [perform, retrieveFrame, afterForces_of_none (p.forceBox.completion_retrieve h)]
    exact ⟨⟨rfl, rfl⟩, rfl, rfl, .refl _, .refl _, p.forceBox.retains_retrieve h, rfl⟩

/-- While boxes are open, whatever needs them closed is refused. -/
theorem ensureClosed_of_open (hopen : p.openBoxes ≠ 0) :
    p.ensureClosed = .error (.boxesOpen p.id p.openBoxes) := if_neg hopen

theorem replaceAtoms_of_open (hopen : p.openBoxes ≠ 0) (d : Directory) (list : List Atom) :
    replaceAtoms d p list = (.error (.refused (.boxesOpen p.id p.openBoxes)), d, p) := by
  rw [replaceAtoms, ensureClosed_of_open hopen]

theorem editAtoms_of_open (hopen : p.openBoxes ≠ 0) (f : List Atom → List Atom) :
    p.editAtoms f = p.refuse (.boxesOpen p.id p.openBoxes) := by
  rw [editAtoms, ensureClosed_of_open hopen]

theorem setAverages_of_open (hopen : p.openBoxes ≠ 0) (list : List Atom) :
    p.setAverages list = p.refuse (.boxesOpen p.id p.openBoxes) := by
  rw [setAverages, ensureClosed_of_open hopen]

theorem Stands.open_of_opened (h : p.Stands .opened) : p.openBoxes ≠ 0 := by
  rw [h.openBoxes_eq, if_pos rfl]
  split <;> exact nofun

/-- A patch is at rest exactly while no box is open. -/
theorem Stands.phase_eq (h : p.Stands phase) :
    phase = if p.openBoxes = 0 then .idle else .opened := by
  cases phase with
  | idle => exact (if_pos h.openBoxes_eq).symm
  | opened => exact (if_neg h.open_of_opened).symm
  | closed => exact absurd rfl h.resting

/-- **In a step, all calls but deposits** leave alone what the step publishes. -/
theorem Stands.retains_perform (h : p.Stands .opened) {c : Call}
    (hc : ∀ handle d, c ≠ .deposit handle d) : p.Retains (p.perform c).2 := by
  cases c with
  | register kind task => exact p.retains_register kind task
  | unregister kind handle => exact p.retains_unregister kind handle
  | positionsReady tag =>
    rw [Patch.perform, positionsReady_of_busy h]
    exact .refl p
  | retrieve kind handle => exact p.retains_retrieve kind handle
  | deposit handle d => exact absurd rfl (hc handle d)
  | depositIntoPositions handle =>
    obtain ⟨r, hr⟩ := Box.deposit_of_read h.position_mode Box.acceptAll handle ()
    rw [Patch.perform, depositIntoPositions, hr]
    exact .refl p
  | depositIntoAverages handle =>
    obtain ⟨r, hr⟩ := Box.deposit_of_read h.average_mode Box.acceptAll handle ()
    rw [Patch.perform, depositIntoAverages, hr]
    exact .refl p
  | replaceAtoms d list =>
    rw [Patch.perform, replaceAtoms_of_open h.open_of_opened]
    exact .refl p
  | editAtoms f =>
    rw [Patch.perform, editAtoms_of_open h.open_of_opened]
    exact .refl p
  | setAverages list =>
    rw [Patch.perform, setAverages_of_open h.open_of_opened]
    exact .refl p
  | setFixedAtoms count => exact ⟨⟨rfl, rfl⟩, rfl, rfl, .refl _, .refl _, .refl _, rfl⟩

/-! ## The invariant of a step -/

/-- What a patch publishes in a step that began with these atoms and averaged positions. -/
structure Publishes (p : Patch) (list averages : List Atom) : Prop where
  /-- the atoms are those that the step began with -/
  atoms : p.atoms = list
  /-- the box of positions hands them out -/
  positions : p.positionBox.payload = some list
  /-- the box of averaged positions hands these out, if it is used -/
  averagePositions : p.averaged → p.averageBox.payload = some averages
  /-- deposits are sized by them -/
  frame : p.forceBox.payload = some ⟨p.id, p.step, list.length⟩
  /-- nothing is added up yet -/
  sums : p.sums = ForceSums.zeros p.step list.length
  /-- what is deposited fits -/
  held : p.forceBox.HoldsOnly fun d => d.forces.length = list.length

namespace Publishes

/-- A patch publishes its atoms and averaged positions when its step begins. -/
theorem begun (h : p.Stands .idle) (ho : p.Orderly) (tag : UInt32) :
    (p.begun tag).Publishes p.atoms p.averages where
  atoms := rfl
  positions := rfl
  averagePositions := by
    intro haveraged
    have hsame : (p.begun tag).averageBox = p.averageBox.start p.averages := if_pos haveraged
    rw [hsame]
    rfl
  frame := rfl
  sums := rfl
  held := ho.forces.holdsOnly (by rw [h.force_phase]; exact nofun) _

/-- What is left alone is still published. -/
theorem retains (h : p.Publishes list averages) (hpq : p.Retains q) :
    q.Publishes list averages where
  atoms := hpq.atoms.trans h.atoms
  positions := hpq.positions.payload.trans h.positions
  averagePositions := fun haveraged =>
    hpq.averages.payload.trans (h.averagePositions (hpq.settled.2 ▸ haveraged))
  frame := by rw [hpq.forces.payload, h.frame, hpq.settled.1, hpq.step]
  sums := by rw [hpq.sums, h.sums, hpq.step]
  held := h.held.retains hpq.forces

/-- The channels are equally long. -/
theorem level (h : p.Publishes list averages) : ∃ n, p.sums.Level n :=
  ⟨list.length, h.sums ▸ ForceSums.level_zeros p.step list.length⟩

/-- A deposit that passes the check has one vector for each atom. -/
theorem fits (h : p.Publishes list averages) {task : ComputeId} {d : ForceDeposit}
    (hjudge : p.forceBox.judge (fitsFrame p.id) task d = .ok ()) :
    d.forces.length = list.length := by
  rw [Box.judge, h.frame] at hjudge
  by_contra hne
  cases (if_neg hne).symm.trans hjudge

/-- **A deposit in a step** leaves alone what the step publishes, or it ends the step, and then all
deposits that are added up have one vector for each atom. -/
theorem deposit (h : p.Publishes list averages) (handle : Handle) (d : ForceDeposit) :
    let reply := p.forceBox.deposit (fitsFrame p.id) handle d
    reply.completion = none ∧ (p.deposit handle d).patch.Publishes list averages ∨
      ∃ c, reply.completion = some c ∧ ∀ x ∈ c.deposits, x.2.forces.length = list.length := by
  intro reply
  obtain ⟨hheld, hpayload, hhanded⟩ := h.held.deposit h.fits
  cases hc : reply.completion with
  | none =>
    refine .inl ⟨rfl, ?_⟩
    rw [Patch.deposit, afterForces_of_none hc]
    exact ⟨h.atoms, h.positions, h.averagePositions, hpayload.trans h.frame, h.sums, hheld⟩
  | some c => exact .inr ⟨c, rfl, hhanded c hc⟩

end Publishes

/-! ## What follows -/

/-- What everybody sees of a patch in a step that began with these atoms and averaged positions. -/
structure Consistent (p : Patch) (list averages : List Atom) : Prop where
  /-- the atoms are those that the step began with -/
  atoms : p.atoms = list
  /-- live handles, and no others, read them -/
  positions : ∀ h l, (p.retrievePositions h).outcome = .ok l ↔
    (p.positionBox.live? h).isSome ∧ l = list
  /-- live handles, and no others, read the averaged positions, if these are published -/
  averagePositions : ∀ h l, (p.retrieveAverages h).outcome = .ok l ↔
    p.averaged ∧ (p.averageBox.live? h).isSome ∧ l = averages
  /-- live handles, and no others, read how deposits are to be sized -/
  frame : ∀ h frame, (p.retrieveFrame h).outcome = .ok frame ↔
    (p.forceBox.live? h).isSome ∧ frame = ⟨p.id, p.step, list.length⟩
  /-- the sums are those of the step -/
  step : p.sums.step = p.step
  /-- they are zero, one vector for each atom in each channel -/
  sums : ∀ channel, p.sums.channel channel = List.replicate list.length Vec3.zero
  /-- the open boxes are counted -/
  counted : p.openBoxes = p.phases.count .opened
  /-- the membership is not replaced, and the directory is left alone -/
  replaceAtoms : ∀ d l,
    Patch.replaceAtoms d p l = (.error (.refused (.boxesOpen p.id p.openBoxes)), d, p)
  /-- the atoms are not edited -/
  editAtoms : ∀ f, p.editAtoms f = p.refuse (.boxesOpen p.id p.openBoxes)
  /-- the averaged positions are not set -/
  setAverages : ∀ l, p.setAverages l = p.refuse (.boxesOpen p.id p.openBoxes)

/-- What a patch does with the deposits that a completion hands it: each has one vector for each
atom, and finds as many sums in every channel to be added to. -/
structure Reduces (p : Patch) (deposits : List ForceDeposit) : Prop where
  /-- each deposit has one vector for each atom -/
  sized : ∀ d ∈ deposits, d.forces.length = p.size
  /-- each deposit is added to as many sums as it has vectors -/
  fitting : ∀ early d late, deposits = early ++ d :: late →
    ∀ channel, ((p.sums.addAll early).channel channel).length = d.forces.length

namespace Publishes

theorem consistent (h : p.Publishes list averages) (hp : p.Stands .opened) :
    p.Consistent list averages where
  atoms := h.atoms
  positions := fun handle list => Box.retrieve_ok_iff hp.position_phase h.positions
  averagePositions := by
    intro handle list
    have hphase := hp.average_phase
    change (p.averageBox.retrieve handle).outcome = _ ↔ _
    cases haveraged : p.averaged with
    | true =>
      rw [haveraged, if_pos rfl] at hphase
      rw [Box.retrieve_ok_iff hphase (h.averagePositions haveraged)]
      exact ⟨fun hok => ⟨rfl, hok⟩, And.right⟩
    | false =>
      rw [haveraged, if_neg (by simp)] at hphase
      exact ⟨fun hok => absurd hok (Box.retrieve_of_not_opened (by rw [hphase]; exact nofun)),
        nofun⟩
  frame := by
    intro handle frame
    rw [retrieveFrame, afterForces_of_none (p.forceBox.completion_retrieve handle)]
    exact Box.retrieve_ok_iff hp.force_phase h.frame
  step := hp.summed
  sums := fun channel => by rw [h.sums, ForceSums.channel_zeros]
  counted := hp.counted
  replaceAtoms := replaceAtoms_of_open hp.open_of_opened
  editAtoms := editAtoms_of_open hp.open_of_opened
  setAverages := setAverages_of_open hp.open_of_opened

theorem reduces (h : p.Publishes list averages) {deposits : List ForceDeposit}
    (hsized : ∀ d ∈ deposits, d.forces.length = list.length) : p.Reduces deposits where
  sized := fun d hd => by rw [hsized d hd, size, h.atoms]
  fitting := by
    rintro early d late rfl channel
    have hlevel := (ForceSums.level_zeros p.step list.length).addAll early
    rw [h.sums, hlevel channel, hsized d (List.mem_append_right _ List.mem_cons_self)]

end Publishes

/-! ## Runs -/

/-- What a run on a patch has led to: the patch stands in order, its channels are equally long, and
in a step it publishes what it had when the step began. -/
structure Shown (start : Patch) (calls : List Call) (phase : Phase) : Prop where
  /-- the patch stands at rest or in a step -/
  stands : (start.after calls).Stands phase
  /-- its boxes are in order -/
  orderly : (start.after calls).Orderly
  /-- the channels are equally long -/
  level : ∃ n, (start.after calls).sums.Level n
  /-- in a step, the patch publishes what it had when the step began -/
  published : phase = .opened → ∃ early tag late, calls = early ++ .positionsReady tag :: late ∧
    ((start.after early).positionsReady tag).outcome = .ok () ∧
    (start.after early).step + 1 = (start.after calls).step ∧
    (start.after calls).Publishes (start.after early).atoms (start.after early).averages

/-- A call that nothing is heard of leaves the step as it is, and its sums. -/
theorem Stands.keeps_of_touched (h : p.Stands phase) {seen : List Signal × Patch}
    (ht : p.Touched seen) : seen.2.Stands phase ∧ seen.2.step = p.step ∧ seen.2.sums = p.sums := by
  cases ht with
  | refused => exact ⟨h, rfl, rfl⟩
  | positions hb _ _ => exact ⟨h.same ⟨rfl, rfl⟩ rfl hb rfl rfl rfl rfl, rfl, rfl⟩
  | averages hb _ _ => exact ⟨h.same ⟨rfl, rfl⟩ rfl rfl hb rfl rfl rfl, rfl, rfl⟩
  | forces hb _ _ => exact ⟨h.same ⟨rfl, rfl⟩ rfl rfl rfl hb rfl rfl, rfl, rfl⟩
  | edited hedited =>
    obtain ⟨_, _, _, _, rfl⟩ := hedited
    exact ⟨h.same ⟨rfl, rfl⟩ rfl rfl rfl rfl rfl rfl, rfl, rfl⟩

namespace Shown

variable {start : Patch} {calls : List Call}

/-- A call in a step that leaves alone what the step publishes. -/
theorem keep (h : start.Shown calls .opened) {c : Call}
    (hstands : (start.after (calls ++ [c])).Stands .opened)
    (hstep : (start.after (calls ++ [c])).step = (start.after calls).step)
    (hpublishes : ∀ {list averages}, (start.after calls).Publishes list averages →
      (start.after (calls ++ [c])).Publishes list averages) :
    start.Shown (calls ++ [c]) .opened := by
  obtain ⟨early, tag, late, hsplit, hok, hsince, hpublished⟩ := h.published rfl
  have horderly := h.orderly.perform h.stands c
  rw [← after_concat] at horderly
  refine ⟨hstands, horderly, (hpublishes hpublished).level,
    fun _ => ⟨early, tag, late ++ [c], ?_, hok, hsince.trans hstep.symm, hpublishes hpublished⟩⟩
  rw [hsplit, List.append_assoc, List.cons_append]

/-- A call after which the patch is at rest. -/
theorem rest (h : start.Shown calls phase) {c : Call}
    (hstands : (start.after (calls ++ [c])).Stands .idle)
    (hlevel : ∃ n, (start.after (calls ++ [c])).sums.Level n) :
    start.Shown (calls ++ [c]) .idle := by
  have horderly := h.orderly.perform h.stands c
  rw [← after_concat] at horderly
  exact ⟨hstands, horderly, hlevel, nofun⟩

/-- A call that nothing is heard of. -/
theorem touched (h : start.Shown calls phase) {c : Call} (hc : ∀ handle d, c ≠ .deposit handle d)
    (ht : (start.after calls).Touched ((start.after calls).perform c)) :
    start.Shown (calls ++ [c]) phase := by
  obtain ⟨hstands, hstep, hsums⟩ := h.stands.keeps_of_touched ht
  rw [← after_concat] at hstands hstep hsums
  cases phase with
  | closed => exact absurd rfl h.stands.resting
  | idle => exact h.rest hstands (hsums ▸ h.level)
  | opened =>
    refine h.keep hstands hstep fun hpublishes => ?_
    rw [after_concat]
    exact hpublishes.retains (h.stands.retains_perform hc)

/-- At rest a step begins, and what the patch has is published unless the step ends at once. -/
theorem positionsReady (h : start.Shown calls phase) (tag : UInt32) :
    ∃ phase, start.Shown (calls ++ [.positionsReady tag]) phase := by
  have hafter := start.after_concat calls (.positionsReady tag)
  cases phase with
  | closed => exact absurd rfl h.stands.resting
  | opened =>
    rw [perform, positionsReady_of_busy h.stands] at hafter
    exact ⟨.opened, h.keep (hafter ▸ h.stands) (congrArg Patch.step hafter) fun hp => hafter ▸ hp⟩
  | idle =>
    by_cases hnone : (start.after calls).forceBox.expected = 0
    · rw [perform, positionsReady_of_unattended h.stands tag hnone] at hafter
      have hended := (h.stands.begun tag).ended ((start.after calls).forceBox.unattended
        ⟨(start.after calls).id, (start.after calls).step + 1, (start.after calls).size⟩) rfl []
      refine ⟨.idle, h.rest (hafter ▸ hended) ⟨(start.after calls).size, ?_⟩⟩
      rw [hafter]
      exact ForceSums.level_zeros _ _
    · have hready := positionsReady_of_attended h.stands tag hnone
      have hpublishes := Publishes.begun h.stands h.orderly tag
      have horderly := h.orderly.begun h.stands tag hnone
      rw [perform, hready] at hafter
      replace hafter : start.after (calls ++ [.positionsReady tag]) =
        (start.after calls).begun tag := hafter
      refine ⟨.opened, ?_, ?_, ?_, fun _ => ⟨calls, tag, [], rfl, ?_, ?_, ?_⟩⟩
      · exact hafter ▸ h.stands.begun tag
      · exact hafter ▸ horderly
      · exact hafter ▸ hpublishes.level
      · rw [hready]
      · rw [hafter]
        rfl
      · exact hafter ▸ hpublishes

/-- A deposit is held, or refused, or it ends the step. -/
theorem deposit (h : start.Shown calls phase) (handle : Handle) (d : ForceDeposit) :
    ∃ phase, start.Shown (calls ++ [.deposit handle d]) phase := by
  have hafter := start.after_concat calls (.deposit handle d)
  rcases (start.after calls).forceBox.deposit_standing (fitsFrame (start.after calls).id) handle d
    with ⟨hc, hs⟩ | ⟨c, hc, -, -, hphase, hs⟩
  · have hstands : ((start.after calls).deposit handle d).patch.Stands phase := by
      rw [Patch.deposit, afterForces_of_none hc]
      exact h.stands.same ⟨rfl, rfl⟩ rfl rfl rfl hs rfl rfl
    have hquiet : ((start.after calls).deposit handle d).patch.step = (start.after calls).step ∧
        ((start.after calls).deposit handle d).patch.sums = (start.after calls).sums := by
      rw [Patch.deposit, afterForces_of_none hc]
      exact ⟨rfl, rfl⟩
    replace hafter : _ = ((start.after calls).deposit handle d).patch := hafter
    rw [← hafter] at hstands hquiet
    refine ⟨phase, ?_⟩
    cases phase with
    | closed => exact absurd rfl h.stands.resting
    | idle => exact h.rest hstands (hquiet.2 ▸ h.level)
    | opened =>
      refine h.keep hstands hquiet.1 fun hpublishes => ?_
      rcases hpublishes.deposit handle d with ⟨-, hthen⟩ | ⟨c, hsome, -⟩
      · exact hafter ▸ hthen
      · cases hc.symm.trans hsome
  · obtain rfl : phase = .opened := h.stands.force_phase.symm.trans hphase
    obtain ⟨n, hlevel⟩ := h.level
    rw [perform, Patch.deposit, afterForces_of_completion h.stands.reading hc] at hafter
    have hended := h.stands.ended _ hs (c.deposits.map Prod.snd)
    refine ⟨.idle, h.rest (hafter ▸ hended) ⟨n, ?_⟩⟩
    rw [hafter]
    exact hlevel.addAll _

/-- **One more call.** -/
theorem concat (h : start.Shown calls phase) (c : Call) :
    ∃ phase, start.Shown (calls ++ [c]) phase := by
  by_cases hdeposit : ∃ handle d, c = .deposit handle d
  · obtain ⟨handle, d, rfl⟩ := hdeposit
    exact h.deposit handle d
  · rcases h.stands.touched_perform c with ht | ⟨tag, rfl⟩ | hd
    · exact ⟨phase, h.touched (fun handle d heq => hdeposit ⟨handle, d, heq⟩) ht⟩
    · exact h.positionsReady tag
    · exact absurd hd hdeposit

end Shown

/-- **A run of calls** on a new patch. -/
theorem shown_new (id : PatchId) (serial : Nat) (averaged : Bool) (calls : List Call) :
    ∃ phase, (new id serial averaged).Shown calls phase := by
  induction calls using List.reverseRecOn with
  | nil => exact ⟨.idle, stands_new .., orderly_new .., ⟨0, ForceSums.level_none⟩, nofun⟩
  | append_singleton calls c ih =>
    obtain ⟨phase, h⟩ := ih
    exact h.concat c

/-- **What a step publishes is consistent until its forces are final.** Take a new patch and any run
of calls on it. While boxes are open, there is the call that began the step, and what the patch had
at that moment is what everybody sees: the atoms, the payloads, the size of deposits and the size of
the sums, which are zero; what needs the boxes closed is refused. Whenever a deposit ends a step,
the deposits that are added to the sums have one vector for each atom, and for each of them there
are as many sums to add it to; a step that ends as it begins adds nothing. And a total is never
looked up out of bounds. -/
theorem publication_consistent (id : PatchId) (serial : Nat) (averaged : Bool) (calls : List Call) :
    let start := new id serial averaged
    let p := start.after calls
    (0 < p.openBoxes → ∃ early tag late, calls = early ++ .positionsReady tag :: late ∧
      ((start.after early).positionsReady tag).outcome = .ok () ∧
      (start.after early).step + 1 = p.step ∧
      p.Consistent (start.after early).atoms (start.after early).averages) ∧
    (∀ handle d c, (p.forceBox.deposit (fitsFrame p.id) handle d).completion = some c →
      (p.deposit handle d).patch.sums = p.sums.addAll (c.deposits.map Prod.snd) ∧
      p.Reduces (c.deposits.map Prod.snd)) ∧
    (∀ frame c, (p.forceBox.publish frame).completion = some c → c.deposits = []) ∧
    p.sums.total.length = p.sums.normal.length ∧
    ∀ i < p.sums.normal.length, ∃ v, p.sums.totalAt i = .ok v ∧ p.sums.total[i]? = some v := by
  intro start p
  obtain ⟨phase, hshown⟩ := shown_new id serial averaged calls
  have hstands : p.Stands phase := hshown.stands
  obtain ⟨n, hlevel⟩ := hshown.level
  have hnormal : p.sums.normal.length = n := hlevel .normal
  refine ⟨fun hopen => ?_, fun handle d c hc => ?_, fun frame c => p.forceBox.deposits_publish,
    hlevel.length_total.trans hnormal.symm, fun i hi => hlevel.totalAt (hnormal ▸ hi)⟩
  · obtain rfl : phase = .opened := hstands.phase_eq.trans (if_neg (Nat.ne_of_gt hopen))
    obtain ⟨early, tag, late, hsplit, hok, hstep, hpublishes⟩ := hshown.published rfl
    exact ⟨early, tag, late, hsplit, hok, hstep, hpublishes.consistent hstands⟩
  · -- only an open box completes, so the patch is in a step
    rcases p.forceBox.deposit_standing (fitsFrame p.id) handle d with
      ⟨hnone, -⟩ | ⟨-, -, -, -, hphase, -⟩
    · cases hnone.symm.trans hc
    · obtain rfl : phase = .opened := hstands.force_phase.symm.trans hphase
      obtain ⟨early, tag, late, -, -, -, hpublishes⟩ := hshown.published rfl
      refine ⟨?_, ?_⟩
      · rw [Patch.deposit, afterForces_of_completion hstands.reading hc]
        rfl
      · rcases Publishes.deposit hpublishes handle d with ⟨hnone, -⟩ | ⟨c', hc', hsized⟩
        · cases hnone.symm.trans hc
        · obtain rfl := Option.some.inj (hc'.symm.trans hc)
          exact Publishes.reduces hpublishes (List.forall_mem_map.mpr hsized)

end Patch

end PatchDynamics
