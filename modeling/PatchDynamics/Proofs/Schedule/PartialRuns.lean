import PatchDynamics.Proofs.Box.Observation
import PatchDynamics.Proofs.Schedule.Reference

/-!
# Runs that fail half way

A task on two patches reads both before it deposits on either, so a patch that is not in a step
stops it before anything is deposited. But patches move from step to step on their own, and a
deposit cannot be taken back. This file shows when a run deposits on one of its patches only:

* `Patch.Serves` — a patch that the task is registered with, wherever the patch stands;
* `Ahead` — the one situation: the task waits for the first patch and has been at the second
  already;
* `Patch.unread`, `Assembly.unread` — patches without the counts of retrievals, which a run that
  stops early may have changed.

The main statement is `run_all_or_none`.
-/

namespace PatchDynamics

namespace Box

variable {P D : Type} {b : Box P D} {h : Handle} {r : Registration D}

/-- A live handle reads nothing while the box is not open. -/
theorem retrieve_of_closed (live : b.live? h = some r) (hphase : b.phase ≠ .opened) :
    b.retrieve h = b.refuse (.notOpen b.label) := by
  rw [retrieve, live]
  exact if_pos hphase

/-- A handle that was spent in the cycle under way is refused. -/
theorem deposit_of_spent (check : ComputeId → P → D → Except Refusal Unit) (value : D)
    (live : b.live? h = some r) (hmode : b.mode = .accumulate) (hcycle : b.cycle ≠ 0)
    (hspent : r.lastCycle = b.cycle) :
    b.deposit check h value = b.refuse (.doubleUse b.label h.task b.cycle) := by
  have hadm : b.admission h = .error (.doubleUse b.label h.task b.cycle) := by
    rw [admission, live]
    dsimp only
    rw [if_neg (by simp [hmode]), if_pos ⟨hcycle, hspent⟩]
  rw [deposit, hadm]

end Box

namespace Patch

variable {p : Patch} {e : Endpoint} {d : ForceDeposit}

/-- A patch that a task is registered with: some run of calls on a new patch has led to it, and the
handles that the task holds of it are out. -/
structure Serves (p : Patch) (e : Endpoint) : Prop where
  /-- some run has led here -/
  reached : p.Reached
  /-- it is the task's patch -/
  patch : p.id = e.patch
  /-- the handle on positions is out -/
  reads : (p.positionBox.live? e.positions).isSome
  /-- the handle on forces is out -/
  deposits : (p.forceBox.live? e.forces).isSome

/-- The handle on forces was spent in the latest step. -/
def Spent (p : Patch) (e : Endpoint) : Prop :=
  ∃ r, p.forceBox.live? e.forces = some r ∧ r.lastCycle = p.forceBox.cycle

/-- The patch without its count of retrievals. -/
def unread (p : Patch) : Patch := { p with positionBox := p.positionBox.unread }

theorem unread_retrieve (p : Patch) (e : Endpoint) :
    (p.retrievePositions e.positions).patch.unread = p.unread :=
  congrArg (fun b => { p with positionBox := b }) (p.positionBox.retrieve_unread e.positions)

namespace Serves

theorem readable (h : p.Serves e) (hopen : 0 < p.openBoxes) : p.Readable e :=
  ⟨h.reached, h.patch, hopen, h.reads⟩

/-- In a step, the patch waits for the task, or the task has deposited already. -/
theorem ready_or_spent (h : p.Serves e) (hopen : 0 < p.openBoxes) : p.ReadyFor e ∨ p.Spent e := by
  obtain ⟨r, live⟩ := Option.isSome_iff_exists.mp h.deposits
  by_cases hspent : r.lastCycle = p.forceBox.cycle
  · exact .inr ⟨r, live, hspent⟩
  · exact .inl ⟨h.reached, h.patch, hopen, h.reads, r, live, hspent⟩

/-- At rest, no positions are read. -/
theorem retrieve_of_rest (h : p.Serves e) (hrest : p.openBoxes = 0) :
    p.retrievePositions e.positions = p.refuse (.notOpen ⟨e.patch, .position⟩) := by
  obtain ⟨r, live⟩ := Option.isSome_iff_exists.mp h.reads
  have hstands := (h.reached.atRest hrest).stands
  have hphase : p.positionBox.phase ≠ .opened := by
    rw [hstands.position_phase]
    exact nofun
  have hlabel : p.positionBox.label = ⟨p.id, .position⟩ :=
    congrArg Box.Standing.label hstands.position
  have hrefused := Box.retrieve_of_closed live hphase
  rw [hlabel, h.patch] at hrefused
  rw [retrievePositions, hrefused]
  rfl

end Serves

/-- **A second deposit** in one step is refused. -/
theorem Readable.deposit_of_spent (h : p.Readable e) (hspent : p.Spent e) (d : ForceDeposit) :
    p.served e d = (p.retrievePositions e.positions).patch.refuse
      (.doubleUse ⟨e.patch, .force⟩ e.forces.task p.step) := by
  obtain ⟨hstands, horderly, -⟩ := h.publishes
  obtain ⟨r, live, hlast⟩ := hspent
  have hlabel : p.forceBox.label = ⟨p.id, .force⟩ := congrArg Box.Standing.label hstands.force
  have hcycle : p.forceBox.cycle = p.step := congrArg Box.Standing.cycle hstands.force
  have hpos : p.forceBox.cycle ≠ 0 :=
    Nat.ne_of_gt (horderly.forces.started hstands.force_phase).1
  have hrefused := Box.deposit_of_spent (fitsFrame p.id) d live hstands.force_mode hpos hlast
  rw [hlabel, hcycle, h.patch] at hrefused
  have hserved : p.served e d = (p.retrievePositions e.positions).patch.afterForces
      (p.forceBox.deposit (fitsFrame p.id) e.forces d) := rfl
  rw [hserved, h.patch, hrefused]
  rfl

end Patch

namespace Assembly

variable {s : Assembly} {p new : Patch} {e : Endpoint}

/-- The assembly without the counts of retrievals. -/
def unread (s : Assembly) : Assembly := { s with patches := s.patches.map Patch.unread }

/-- A patch that was read is the patch as it was, the count apart. -/
theorem unread_read (nodup : (s.patches.map Patch.id).Nodup) (hp : p ∈ s.patches)
    (h : p.Readable e) : (s.read p e).unread = s.unread := by
  have hpatches : (s.read p e).patches.map Patch.unread = s.patches.map Patch.unread := by
    rw [read, answered, List.map_map]
    refine List.map_congr_left fun q hq => ?_
    by_cases hsame : q.id = (p.retrievePositions e.positions).patch.id
    · obtain rfl := List.inj_on_of_nodup_map nodup hq hp (hsame.trans h.id_retrieve)
      rw [Function.comp, if_pos hsame, Patch.unread_retrieve]
    · rw [Function.comp, if_neg hsame]
  have hsignals : (s.read p e).signals = s.signals := by simp [read, answered]
  rw [unread, unread, hpatches, hsignals]
  rfl

/-- A call that a patch refuses changes nothing. -/
theorem onPatch_refused {α : Type} {f : Patch → Patch.Reply α} {r : Refusal}
    (nodup : (s.patches.map Patch.id).Nodup) (hp : p ∈ s.patches) (absent : Failure)
    (hreply : f p = p.refuse r) : onPatch p.id absent f s = (.error (.refused r), s) := by
  have hcall := call_eq (f := f) (List.map_id' s.patches).symm (fun _ _ => rfl) nodup hp
  have hsame : putPatch s.patches (fun q => q) p p = s.patches := by
    refine (List.map_congr_left fun q hq => ?_).trans (List.map_id' s.patches)
    by_cases hid : q.id = p.id
    · rw [if_pos hid, List.inj_on_of_nodup_map nodup hq hp hid]
    · rw [if_neg hid]
  rw [hreply] at hcall
  rw [onPatch_of_call absent hcall]
  dsimp only [Patch.refuse]
  rw [hsame]
  refine congrArg (Prod.mk _) ?_
  simp

end Assembly

namespace ForceTask

variable {law : ForceLaw} {grid : Grid} {t : ForceTask} {s : Assembly} {p p' : Patch}
  {e e' : Endpoint} {counts : PairCounts}

/-! ## Runs that stop -/

/-- A run that stops while it reads. -/
theorem run_of_unread {s' : Assembly} {failure : Failure}
    (hreads : t.endpoints.mapM retrieve s = (.error failure, s')) :
    t.run law grid s = (.error failure, s') := bind_of_error hreads _

/-- A run that stops while it deposits. -/
theorem run_of_refused {s₁ s₂ : Assembly} {positions lists : List (List Vec3)} {failure : Failure}
    (hreads : t.endpoints.mapM retrieve s = (.ok positions, s₁))
    (heval : evaluate law grid positions = .ok (lists, counts))
    (hwrites : ((t.endpoints.zip lists).forM fun (e, list) => deposit law.channel e list) s₁ =
      (.error failure, s₂)) :
    t.run law grid s = (.error failure, s₂) := by
  rw [run, bind_of_ok hreads, heval]
  exact bind_of_error hwrites fun _ => return counts

/-- A patch at rest stops the run. -/
theorem retrieve_of_rest (nodup : (s.patches.map Patch.id).Nodup) (hp : p ∈ s.patches)
    (h : p.Serves e) (hrest : p.openBoxes = 0) :
    retrieve e s = (.error (.refused (.notOpen ⟨e.patch, .position⟩)), s) := by
  have hcall := Assembly.onPatch_refused (f := fun p => p.retrievePositions e.positions) nodup hp
    (.unknownPatch e.patch) (h.retrieve_of_rest hrest)
  rw [h.patch] at hcall
  exact bind_of_error hcall _

variable (law) in
/-- A patch that the task has deposited on in the step under way stops the run. -/
theorem deposit_of_spent (nodup : (s.patches.map Patch.id).Nodup)
    (hread : (p.retrievePositions e.positions).patch ∈ s.patches) (h : p.Readable e)
    (hspent : p.Spent e) (forces : List Vec3) :
    deposit law.channel e forces s =
      (.error (.refused (.doubleUse ⟨e.patch, .force⟩ e.forces.task p.step)), s) := by
  have hcall := Assembly.onPatch_refused (f := fun p => p.deposit e.forces ⟨law.channel, forces⟩)
    nodup hread (.unknownPatch e.patch) (h.deposit_of_spent hspent ⟨law.channel, forces⟩)
  rw [h.id_retrieve, h.patch] at hcall
  exact hcall

/-! ## Runs on two patches -/

/-- The first patch is in a step and waits for the task, and the second one is in a step in which
the task has deposited. So the first one has moved on since the task's latest run, and the second
one has not. -/
structure Ahead (p p' : Patch) (e e' : Endpoint) : Prop where
  /-- the first patch waits for the task -/
  ready : p.ReadyFor e
  /-- the second patch is in a step -/
  opened : 0 < p'.openBoxes
  /-- the task has deposited in it -/
  spent : p'.Spent e'

/-- A task on two of the patches of an assembly. -/
structure ServesPair (t : ForceTask) (s : Assembly) (p p' : Patch) (e e' : Endpoint) : Prop where
  /-- no two patches have the same number -/
  nodup : (s.patches.map Patch.id).Nodup
  /-- the task has two patches -/
  endpoints : t.endpoints = [e, e']
  /-- they are two -/
  ne : e.patch ≠ e'.patch
  /-- the first patch is there -/
  mem : p ∈ s.patches
  /-- the task is registered with it -/
  first : p.Serves e
  /-- the second patch is there -/
  mem' : p' ∈ s.patches
  /-- the task is registered with it -/
  second : p'.Serves e'

namespace ServesPair

/-- The deposits that a run makes, if it comes to that. -/
def firstDeposit (law : ForceLaw) (grid : Grid) (p p' : Patch) : ForceDeposit :=
  ⟨law.channel, (p.atoms.map Atom.position).map
    (forceOnFirst law grid (p'.atoms.map Atom.position))⟩

@[inherit_doc firstDeposit]
def secondDeposit (law : ForceLaw) (grid : Grid) (p p' : Patch) : ForceDeposit :=
  ⟨law.channel, (p'.atoms.map Atom.position).map
    (forceOnSecond law grid (p.atoms.map Atom.position))⟩

theorem length_firstDeposit (law : ForceLaw) (grid : Grid) (p p' : Patch) :
    (firstDeposit law grid p p').forces.length = p.size := by
  simp [firstDeposit, Patch.size]

theorem length_secondDeposit (law : ForceLaw) (grid : Grid) (p p' : Patch) :
    (secondDeposit law grid p p').forces.length = p'.size := by
  simp [secondDeposit, Patch.size]

variable (h : ServesPair t s p p' e e') (law : ForceLaw) (grid : Grid)

include h

theorem readablePair (hopen : 0 < p.openBoxes) (hopen' : 0 < p'.openBoxes) :
    ReadablePair s p p' e e' where
  nodup := h.nodup
  mem := h.mem
  first := h.first.readable hopen
  mem' := h.mem'
  second := h.second.readable hopen'
  ne := by
    rw [h.first.patch, h.second.patch]
    exact h.ne

/-- Both patches wait: both are served. -/
theorem run_of_ready (hready : p.ReadyFor e) (hready' : p'.ReadyFor e') :
    ∃ counts, t.run law grid s = (.ok counts,
      (s.served p e (firstDeposit law grid p p')).served p' e' (secondDeposit law grid p p')) :=
  ⟨_, run_pair h.nodup h.endpoints h.ne h.mem hready h.mem' hready'
    (evaluate_pair law grid _ _) (length_firstDeposit law grid p p')
    (length_secondDeposit law grid p p')⟩

/-- The first patch is at rest: the run stops before it reads. -/
theorem run_of_rest (hrest : p.openBoxes = 0) :
    t.run law grid s = (.error (.refused (.notOpen ⟨e.patch, .position⟩)), s) := by
  refine run_of_unread ?_
  rw [h.endpoints, List.mapM_cons]
  exact bind_of_error (retrieve_of_rest h.nodup h.mem h.first hrest) _

/-- The second patch is at rest: the run stops once the first one is read. -/
theorem run_of_second_rest (hopen : 0 < p.openBoxes) (hrest : p'.openBoxes = 0) :
    t.run law grid s = (.error (.refused (.notOpen ⟨e'.patch, .position⟩)), s.read p e) := by
  have hreadable := h.first.readable hopen
  have hne : p'.id ≠ (p.retrievePositions e.positions).patch.id := by
    rw [hreadable.id_retrieve, h.first.patch, h.second.patch]
    exact h.ne.symm
  have hmem : p' ∈ (s.read p e).patches := Assembly.mem_answered_of_ne h.mem' hne
  have hsecond := retrieve_of_rest (nodup_read h.nodup p e) hmem h.second hrest
  refine run_of_unread ?_
  rw [h.endpoints, List.mapM_cons, bind_of_ok (retrieve_eq h.nodup h.mem hreadable),
    List.mapM_cons, bind_assoc]
  exact bind_of_error hsecond _

/-- The task has deposited in the step of the first patch: the run stops once both are read. -/
theorem run_of_spent (hopen : 0 < p.openBoxes) (hopen' : 0 < p'.openBoxes) (hspent : p.Spent e) :
    t.run law grid s =
      (.error (.refused (.doubleUse ⟨e.patch, .force⟩ e.forces.task p.step)),
        (s.read p e).read p' e') := by
  have hpair := h.readablePair hopen hopen'
  have hrefused := deposit_of_spent law hpair.nodup_both hpair.mem_both hpair.first hspent
    (firstDeposit law grid p p').forces
  refine run_of_refused (hpair.retrieves h.endpoints) (evaluate_pair law grid _ _) ?_
  rw [h.endpoints]
  exact bind_of_error hrefused _

/-- The task is ahead: the run stops once the first patch is served. -/
theorem run_of_ahead (hahead : Ahead p p' e e') :
    t.run law grid s =
      (.error (.refused (.doubleUse ⟨e'.patch, .force⟩ e'.forces.task p'.step)),
        (s.served p e (firstDeposit law grid p p')).read p' e') := by
  have hpair := h.readablePair hahead.ready.opened hahead.opened
  have hfirst := hpair.deposits_first law hahead.ready (length_firstDeposit law grid p p')
  have hserved := hpair.nodup_served (firstDeposit law grid p p')
  have hmem := mem_read (hpair.mem_served (firstDeposit law grid p p')) hpair.second
  have hrefused := deposit_of_spent law (nodup_read hserved p' e') hmem hpair.second hahead.spent
    (secondDeposit law grid p p').forces
  refine run_of_refused (hpair.retrieves h.endpoints) (evaluate_pair law grid _ _) ?_
  rw [h.endpoints]
  exact (bind_of_ok hfirst _).trans (bind_of_error hrefused _)

/-- A task that is not ahead deposits on both patches, or the run fails with nothing changed but
counts of retrievals. -/
theorem run_of_not_ahead (hahead : ¬ Ahead p p' e e') :
    p.ReadyFor e ∧ p'.ReadyFor e' ∨
      ∃ failure s', t.run law grid s = (.error failure, s') ∧ s'.unread = s.unread := by
  rcases Nat.eq_zero_or_pos p.openBoxes with hrest | hopen
  · exact .inr ⟨_, _, h.run_of_rest law grid hrest, rfl⟩
  have hreadable := h.first.readable hopen
  have hunread := Assembly.unread_read h.nodup h.mem hreadable
  rcases Nat.eq_zero_or_pos p'.openBoxes with hrest' | hopen'
  · exact .inr ⟨_, _, h.run_of_second_rest law grid hopen hrest', hunread⟩
  rcases h.first.ready_or_spent hopen with hready | hspent
  · -- not being ahead means that the second patch waits, too
    rcases h.second.ready_or_spent hopen' with hready' | hspent'
    · exact .inl ⟨hready, hready'⟩
    · exact absurd ⟨hready, hopen', hspent'⟩ hahead
  · have hpair := h.readablePair hopen hopen'
    have hmem : p' ∈ (s.read p e).patches := Assembly.mem_answered_of_ne h.mem' hpair.read_ne
    have hunread' := Assembly.unread_read (nodup_read h.nodup p e) hmem hpair.second
    exact .inr ⟨_, _, h.run_of_spent law grid hopen hopen' hspent, hunread'.trans hunread⟩

end ServesPair

/-- **A run deposits on both patches or on none, unless the task is ahead.** Take patches with
different numbers, each of which any run of calls has led to where it stands, and a task that is
registered with two of them. However the two stand to each other:

* The run succeeds exactly if both patches are in a step and wait for the task, and then each of
  them has accepted a deposit.
* If it fails and the task is not ahead, all patches and all that was told are as before, but for
  counts of retrievals.
* If the task is ahead, it fails at the second patch as a double use, and the first one has accepted
  its deposit. -/
theorem run_all_or_none (h : ServesPair t s p p' e e') (law : ForceLaw) (grid : Grid) :
    ((∃ counts s', t.run law grid s = (.ok counts, s')) ↔ p.ReadyFor e ∧ p'.ReadyFor e') ∧
    (∀ counts s', t.run law grid s = (.ok counts, s') → ∃ d d', (p.served e d).outcome = .ok () ∧
      (p'.served e' d').outcome = .ok () ∧ s' = (s.served p e d).served p' e' d') ∧
    (∀ failure s', t.run law grid s = (.error failure, s') → ¬ Ahead p p' e e' →
      s'.unread = s.unread) ∧
    (Ahead p p' e e' → ∃ d s', (p.served e d).outcome = .ok () ∧
      t.run law grid s =
        (.error (.refused (.doubleUse ⟨e'.patch, .force⟩ e'.forces.task p'.step)), s') ∧
      s'.unread = (s.served p e d).unread) := by
  have hfirst (hready : p.ReadyFor e) :
      (p.served e (ServesPair.firstDeposit law grid p p')).outcome = .ok () := by
    rw [hready.deposit (ServesPair.length_firstDeposit law grid p p')]
  have hsecond (hready : p'.ReadyFor e') :
      (p'.served e' (ServesPair.secondDeposit law grid p p')).outcome = .ok () := by
    rw [hready.deposit (ServesPair.length_secondDeposit law grid p p')]
  -- a run that succeeds finds both patches waiting
  have hboth {counts : PairCounts} {s' : Assembly} (hrun : t.run law grid s = (.ok counts, s')) :
      p.ReadyFor e ∧ p'.ReadyFor e' := by
    by_cases hahead : Ahead p p' e e'
    · cases (h.run_of_ahead law grid hahead).symm.trans hrun
    · rcases h.run_of_not_ahead law grid hahead with hready | ⟨failure, s'', hfails, -⟩
      · exact hready
      · cases hfails.symm.trans hrun
  refine ⟨⟨?_, ?_⟩, ?_, ?_, ?_⟩
  · rintro ⟨counts, s', hrun⟩
    exact hboth hrun
  · rintro ⟨hready, hready'⟩
    obtain ⟨counts, hrun⟩ := h.run_of_ready law grid hready hready'
    exact ⟨counts, _, hrun⟩
  · intro counts s' hrun
    obtain ⟨hready, hready'⟩ := hboth hrun
    obtain ⟨counts', hrun'⟩ := h.run_of_ready law grid hready hready'
    cases hrun'.symm.trans hrun
    exact ⟨_, _, hfirst hready, hsecond hready', rfl⟩
  · intro failure s' hrun hahead
    rcases h.run_of_not_ahead law grid hahead with
      ⟨hready, hready'⟩ | ⟨failure', s'', hfails, hsame⟩
    · obtain ⟨counts, hrun'⟩ := h.run_of_ready law grid hready hready'
      cases hrun'.symm.trans hrun
    · cases hfails.symm.trans hrun
      exact hsame
  · intro hahead
    have hpair := h.readablePair hahead.ready.opened hahead.opened
    exact ⟨_, _, hfirst hahead.ready, h.run_of_ahead law grid hahead,
      Assembly.unread_read (hpair.nodup_served _) (hpair.mem_served _) hpair.second⟩

/-- A patch with one atom, in its second step, which waits for a task. -/
def movedOn : Patch :=
  (Patch.new ⟨0⟩ 0 false).after [.editAtoms fun _ => [⟨0, Vec3.zero⟩], .register .position ⟨5⟩,
    .register .force ⟨5⟩, .positionsReady 0, .deposit ⟨2, ⟨5⟩, 1⟩ ⟨.nonbonded, [Vec3.zero]⟩,
    .positionsReady 0]

/-- A patch in its first step, which has the task's deposit and waits for another one. -/
def leftBehind : Patch :=
  (Patch.new ⟨1⟩ 3 false).after [.register .position ⟨5⟩, .register .force ⟨5⟩,
    .register .force ⟨6⟩, .positionsReady 0, .deposit ⟨5, ⟨5⟩, 1⟩ ⟨.nonbonded, []⟩]

/-- The task on both of them. -/
def overtaking : ForceTask :=
  ⟨⟨5⟩, [⟨⟨0⟩, ⟨0, ⟨5⟩, 1⟩, ⟨2, ⟨5⟩, 1⟩⟩, ⟨⟨1⟩, ⟨3, ⟨5⟩, 1⟩, ⟨5, ⟨5⟩, 1⟩⟩]⟩

/-- Both of them. -/
def overtaken : Assembly :=
  { Assembly.build ⟨4, 0, false, 4⟩ [] with patches := [movedOn, leftBehind] }

theorem servesPair_overtaken :
    ServesPair overtaking overtaken movedOn leftBehind ⟨⟨0⟩, ⟨0, ⟨5⟩, 1⟩, ⟨2, ⟨5⟩, 1⟩⟩
      ⟨⟨1⟩, ⟨3, ⟨5⟩, 1⟩, ⟨5, ⟨5⟩, 1⟩⟩ where
  nodup := by decide
  endpoints := rfl
  ne := by decide
  mem := List.mem_cons_self
  first := ⟨⟨⟨0⟩, 0, false, _, rfl⟩, rfl, by decide, by decide⟩
  mem' := List.mem_cons_of_mem _ List.mem_cons_self
  second := ⟨⟨⟨1⟩, 3, false, _, rfl⟩, rfl, by decide, by decide⟩

/-- The task is ahead, so the run serves the first patch and fails. -/
theorem run_all_or_none_ahead :
    let e : Endpoint := ⟨⟨0⟩, ⟨0, ⟨5⟩, 1⟩, ⟨2, ⟨5⟩, 1⟩⟩
    let e' : Endpoint := ⟨⟨1⟩, ⟨3, ⟨5⟩, 1⟩, ⟨5, ⟨5⟩, 1⟩⟩
    ServesPair overtaking overtaken movedOn leftBehind e e' ∧ Ahead movedOn leftBehind e e' ∧
    ∃ d s', (movedOn.served e d).outcome = .ok () ∧
      overtaking.run (SoftSpring.law ⟨1, 1⟩) (Grid.new 2 1) overtaken =
        (.error (.refused (.doubleUse ⟨⟨1⟩, .force⟩ ⟨5⟩ 1)), s') ∧
      s'.unread = (overtaken.served movedOn e d).unread := by
  intro e e'
  have hpair : ServesPair overtaking overtaken movedOn leftBehind e e' := servesPair_overtaken
  have hready : movedOn.ReadyFor e :=
    ⟨hpair.first.reached, rfl, by decide, by decide, _, rfl, by decide⟩
  have hahead : Ahead movedOn leftBehind e e' := ⟨hready, by decide, _, rfl, rfl⟩
  exact ⟨hpair, hahead, (run_all_or_none hpair (SoftSpring.law ⟨1, 1⟩) (Grid.new 2 1)).2.2.2 hahead⟩

/-- **A run that fails may have deposited**: the second patch refuses the task, and the first one
has ended its step with what the task deposited. -/
theorem failed_run_deposits :
    ServesPair overtaking overtaken movedOn leftBehind ⟨⟨0⟩, ⟨0, ⟨5⟩, 1⟩, ⟨2, ⟨5⟩, 1⟩⟩
      ⟨⟨1⟩, ⟨3, ⟨5⟩, 1⟩, ⟨5, ⟨5⟩, 1⟩⟩ ∧
    ∃ failure s', overtaking.run (SoftSpring.law ⟨1, 1⟩) (Grid.new 2 1) overtaken =
        (.error failure, s') ∧
      overtaken.patches.map (fun p => (p.openBoxes, p.forceBox.remaining)) = [(2, 1), (2, 1)] ∧
      s'.patches.map (fun p => (p.openBoxes, p.forceBox.remaining)) = [(0, 0), (2, 1)] :=
  ⟨servesPair_overtaken, _, _, rfl, rfl, rfl⟩

end ForceTask

end PatchDynamics
