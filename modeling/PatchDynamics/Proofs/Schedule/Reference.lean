import PatchDynamics.Proofs.Directory.Residence
import PatchDynamics.Proofs.Patch.Publication
import PatchDynamics.Proofs.Schedule.Gather
import PatchDynamics.Proofs.Schedule.Independence

/-!
# A task computes the reference

A task on one patch or on two, run while its patches are in a step and wait for it. Other tasks may
have deposited before, or be still to deposit. This file follows the run call by call:

* `Patch.ReadyFor` — a patch in a step, with what the task holds of it good for use;
* `Patch.served`, `Assembly.served` — what is left of a patch that has been read and deposited on;
* `run_computes_reference` — the run succeeds, and what it deposits are the forces by reference.
-/

namespace PatchDynamics

namespace Patch

variable {p : Patch} {e : Endpoint} {d : ForceDeposit} {list averages : List Atom}

/-- A patch that a task may use: some run of calls on a new patch has led to it, it is in a step,
and the handles that the task holds of it are out, the one on forces not spent in this step. -/
structure ReadyFor (p : Patch) (e : Endpoint) : Prop where
  /-- some run has led here -/
  reached : p.Reached
  /-- it is the task's patch -/
  patch : p.id = e.patch
  /-- the positions are ready -/
  opened : 0 < p.openBoxes
  /-- the handle on positions is out -/
  reads : (p.positionBox.live? e.positions).isSome
  /-- the handle on forces is out and not spent -/
  unspent : ∃ r, p.forceBox.live? e.forces = some r ∧ r.lastCycle ≠ p.forceBox.cycle

/-- A patch in a step whose positions a task may read. -/
structure Readable (p : Patch) (e : Endpoint) : Prop where
  /-- some run has led here -/
  reached : p.Reached
  /-- it is the task's patch -/
  patch : p.id = e.patch
  /-- the positions are ready -/
  opened : 0 < p.openBoxes
  /-- the handle on positions is out -/
  reads : (p.positionBox.live? e.positions).isSome

theorem ReadyFor.readable (h : p.ReadyFor e) : p.Readable e :=
  ⟨h.reached, h.patch, h.opened, h.reads⟩

/-- A task that reads a patch and then deposits on it, with nothing in between. -/
def served (p : Patch) (e : Endpoint) (d : ForceDeposit) : Reply Unit :=
  (p.retrievePositions e.positions).patch.deposit e.forces d

/-- What the caller of the box of forces gets is what the box answers. -/
theorem outcome_afterForces {α : Type} (p : Patch)
    (reply : PatchDynamics.Reply ForceFrame ForceDeposit α) :
    (p.afterForces reply).outcome = reply.outcome := by
  unfold afterForces
  dsimp only
  split <;> rfl

/-- **A deposit that fits** is accepted in a step, through a handle that is not spent. -/
theorem Publishes.deposit_ok (h : p.Publishes list averages) (hp : p.Stands .opened)
    (ho : p.Orderly) {handle : Handle} {r : Registration ForceDeposit}
    (live : p.forceBox.live? handle = some r) (hfresh : r.lastCycle ≠ p.forceBox.cycle)
    (hfits : d.forces.length = list.length) :
    (p.forceBox.deposit (fitsFrame p.id) handle d).outcome = .ok () := by
  have hjudge : p.forceBox.judge (fitsFrame p.id) handle.task d = .ok () := by
    rw [Box.judge, h.frame]
    exact if_pos hfits
  rw [Box.deposit_of_live live hp.force_mode hp.force_phase hfresh hjudge]
  -- an open box waits for a deposit
  have hwaiting : 0 < (p.forceBox.keep handle p.forceBox.cycle d).remaining :=
    (ho.forces.awaiting hp.force_mode).mp hp.force_phase
  rcases Nat.lt_or_eq_of_le (Nat.succ_le_of_lt hwaiting) with hmore | hlast
  · rw [Box.countDown_of_more _ hmore]
  · rw [Box.countDown_of_last _ hlast.symm]

namespace Readable

/-- What a patch publishes in the step that it is in. -/
theorem publishes (h : p.Readable e) :
    p.Stands .opened ∧ p.Orderly ∧ ∃ averages, p.Publishes p.atoms averages := by
  obtain ⟨id, serial, averaged, calls, made⟩ := h.reached
  obtain ⟨phase, hstands, horderly, -, hpublished⟩ := shown_new id serial averaged calls
  rw [← made] at hstands horderly hpublished
  obtain rfl : phase = .opened := hstands.phase_eq.trans (if_neg (Nat.ne_of_gt h.opened))
  obtain ⟨early, tag, late, -, -, -, hpublishes⟩ := hpublished rfl
  rw [← hpublishes.atoms] at hpublishes
  exact ⟨hstands, horderly, _, hpublishes⟩

/-- **The positions** are read. -/
theorem retrieve (h : p.Readable e) :
    p.retrievePositions e.positions =
      ⟨.ok p.atoms, [], (p.retrievePositions e.positions).patch⟩ := by
  obtain ⟨hstands, -, averages, hpublishes⟩ := h.publishes
  obtain ⟨r, live⟩ := Option.isSome_iff_exists.mp h.reads
  rw [retrievePositions, Box.retrieve_of_live live hstands.position_phase hpublishes.positions]

theorem id_retrieve (h : p.Readable e) : (p.retrievePositions e.positions).patch.id = p.id :=
  (h.publishes.1.exists_perform (.retrieve .position e.positions)).2

theorem id_served (h : p.Readable e) (d : ForceDeposit) : (p.served e d).patch.id = p.id := by
  obtain ⟨⟨phase, hread⟩, hid⟩ :=
    h.publishes.1.exists_perform (.retrieve .position e.positions)
  exact (hread.exists_perform (.deposit e.forces d)).2.trans hid

end Readable

/-- **The forces** are accepted, if there is one for each atom. -/
theorem ReadyFor.deposit (h : p.ReadyFor e) (hfits : d.forces.length = p.size) :
    p.served e d = ⟨.ok (), (p.served e d).signals, (p.served e d).patch⟩ := by
  obtain ⟨hstands, horderly, averages, hpublishes⟩ := h.readable.publishes
  obtain ⟨r, live, hfresh⟩ := h.unspent
  have hok : (p.served e d).outcome = .ok () :=
    (outcome_afterForces _ _).trans (hpublishes.deposit_ok hstands horderly live hfresh hfits)
  rw [← hok]

end Patch

namespace Assembly

/-! ## Calls that are answered -/

/-- The assembly with a patch that has changed put in its place, and with what it tells. -/
def answered (s : Assembly) (new : Patch) (signals : List Signal) : Assembly :=
  { s with
    patches := s.patches.map fun q => if q.id = new.id then new else q
    signals := s.signals ++ signals }

/-- The assembly once a task has read one of the patches. -/
def read (s : Assembly) (p : Patch) (e : Endpoint) : Assembly :=
  s.answered (p.retrievePositions e.positions).patch []

/-- The assembly once a task has read one of the patches and has deposited on it. -/
def served (s : Assembly) (p : Patch) (e : Endpoint) (d : ForceDeposit) : Assembly :=
  s.answered (p.served e d).patch (p.served e d).signals

variable {s : Assembly} {p q new other : Patch} {signals more : List Signal}

theorem nodup_answered (nodup : (s.patches.map Patch.id).Nodup) (new : Patch)
    (signals : List Signal) : ((s.answered new signals).patches.map Patch.id).Nodup := by
  have hids : (s.answered new signals).patches.map Patch.id = s.patches.map Patch.id := by
    rw [answered, List.map_map]
    refine List.map_congr_left fun q _ => ?_
    by_cases hsame : q.id = new.id
    · rw [Function.comp, if_pos hsame, hsame]
    · rw [Function.comp, if_neg hsame]
  rw [hids]
  exact nodup

theorem mem_answered (hp : p ∈ s.patches) (hid : new.id = p.id) :
    new ∈ (s.answered new signals).patches :=
  List.mem_map.mpr ⟨p, hp, if_pos hid.symm⟩

theorem mem_answered_of_ne (hq : q ∈ s.patches) (hne : q.id ≠ new.id) :
    q ∈ (s.answered new signals).patches :=
  List.mem_map.mpr ⟨q, hq, if_neg hne⟩

/-- Of two changes of a patch the second one counts. -/
theorem answered_answered (hid : new.id = other.id) :
    (s.answered new signals).answered other more = s.answered other (signals ++ more) := by
  have hpatches : ((s.answered new signals).answered other more).patches =
      (s.answered other (signals ++ more)).patches := by
    dsimp only [answered]
    rw [List.map_map]
    refine List.map_congr_left fun q _ => ?_
    by_cases hsame : q.id = other.id
    · rw [Function.comp, if_pos (hsame.trans hid.symm), if_pos hid, if_pos hsame]
    · have hother : q.id ≠ new.id := hid ▸ hsame
      rw [Function.comp, if_neg hother, if_neg hsame]
  have hsignals : s.signals ++ signals ++ more = s.signals ++ (signals ++ more) :=
    Array.toList_inj.mp (by simp)
  dsimp only [answered] at hpatches ⊢
  rw [hpatches, hsignals]

/-- Changes of two patches may change places, if one of them tells nothing. -/
theorem answered_comm (hne : new.id ≠ other.id) :
    (s.answered new []).answered other more = (s.answered other more).answered new [] := by
  have hpatches : ((s.answered new []).answered other more).patches =
      ((s.answered other more).answered new []).patches := by
    dsimp only [answered]
    rw [List.map_map, List.map_map]
    refine List.map_congr_left fun q _ => ?_
    by_cases hfirst : q.id = new.id
    · have hsecond : q.id ≠ other.id := fun heq => hne (hfirst.symm.trans heq)
      rw [Function.comp, Function.comp, if_pos hfirst, if_neg hne, if_neg hsecond, if_pos hfirst]
    · by_cases hsecond : q.id = other.id
      · rw [Function.comp, Function.comp, if_neg hfirst, if_pos hsecond, if_neg hne.symm]
      · rw [Function.comp, Function.comp, if_neg hfirst, if_neg hsecond, if_neg hfirst]
  have hsignals : ∀ told : Array Signal, told ++ ([] : List Signal) = told := by simp
  dsimp only [answered] at hpatches ⊢
  rw [hpatches, hsignals, hsignals]

/-- A call that succeeds on a patch. -/
theorem onPatch_answered {α : Type} {f : Patch → Patch.Reply α} {a : α}
    (nodup : (s.patches.map Patch.id).Nodup) (hp : p ∈ s.patches) (absent : Failure)
    (hreply : f p = ⟨.ok a, signals, new⟩) (hid : new.id = p.id) :
    onPatch p.id absent f s = (.ok a, s.answered new signals) := by
  rw [onPatch_eq (List.map_id' s.patches).symm (fun _ _ => rfl) nodup hp absent hreply, answered,
    hid]
  rfl

end Assembly

namespace ForceTask

variable {law : ForceLaw} {grid : Grid} {t : ForceTask} {s : Assembly} {p p' : Patch}
  {e e' : Endpoint} {forces forces' : List Vec3} {counts : PairCounts}

/-! ## A run in parts -/

/-- A run that is known in its three parts. -/
theorem run_of_parts {s₁ s₂ : Assembly} {positions lists : List (List Vec3)}
    (hreads : t.endpoints.mapM retrieve s = (.ok positions, s₁))
    (heval : evaluate law grid positions = .ok (lists, counts))
    (hwrites : ((t.endpoints.zip lists).forM fun (e, list) => deposit law.channel e list) s₁ =
      (.ok (), s₂)) :
    t.run law grid s = (.ok counts, s₂) := by
  rw [run, bind_of_ok hreads, heval]
  exact bind_of_ok hwrites fun _ => return counts

/-- The positions of a patch are read. -/
theorem retrieve_eq (nodup : (s.patches.map Patch.id).Nodup) (hp : p ∈ s.patches)
    (h : p.Readable e) :
    retrieve e s = (.ok (p.atoms.map Atom.position), s.read p e) := by
  have hcall := Assembly.onPatch_answered (f := fun p => p.retrievePositions e.positions) nodup hp
    (.unknownPatch e.patch) h.retrieve h.id_retrieve
  rw [h.patch] at hcall
  rw [retrieve, bind_of_ok hcall]
  rfl

variable (law) in
/-- Forces are deposited on a patch that was read before. -/
theorem deposit_eq (nodup : (s.patches.map Patch.id).Nodup)
    (hread : (p.retrievePositions e.positions).patch ∈ s.patches) (h : p.ReadyFor e)
    (hfits : forces.length = p.size) :
    deposit law.channel e forces s = (.ok (), s.served p e ⟨law.channel, forces⟩) := by
  have hids := (h.readable.id_served ⟨law.channel, forces⟩).trans h.readable.id_retrieve.symm
  have hcall := Assembly.onPatch_answered (f := fun p => p.deposit e.forces ⟨law.channel, forces⟩)
    nodup hread (.unknownPatch e.patch) (h.deposit hfits) hids
  rw [h.readable.id_retrieve, h.patch] at hcall
  exact hcall

theorem nodup_read (nodup : (s.patches.map Patch.id).Nodup) (p : Patch) (e : Endpoint) :
    ((s.read p e).patches.map Patch.id).Nodup := Assembly.nodup_answered nodup _ []

theorem mem_read (hp : p ∈ s.patches) (h : p.Readable e) :
    (p.retrievePositions e.positions).patch ∈ (s.read p e).patches :=
  Assembly.mem_answered hp h.id_retrieve

/-- A patch that is read and then deposited on is served. -/
theorem served_of_read (h : p.Readable e) (d : ForceDeposit) :
    (s.read p e).served p e d = s.served p e d :=
  Assembly.answered_answered (h.id_retrieve.trans (h.id_served d).symm)

/-- **A task on one patch** reads it and deposits on it. -/
theorem run_self (nodup : (s.patches.map Patch.id).Nodup) (hendpoints : t.endpoints = [e])
    (hp : p ∈ s.patches) (h : p.ReadyFor e)
    (heval : evaluate law grid [p.atoms.map Atom.position] = .ok ([forces], counts))
    (hfits : forces.length = p.size) :
    t.run law grid s = (.ok counts, s.served p e ⟨law.channel, forces⟩) := by
  have hread := retrieve_eq nodup hp h.readable
  have hwrite := deposit_eq law (nodup_read nodup p e) (mem_read hp h.readable) h hfits
  rw [served_of_read h.readable] at hwrite
  have hreads : t.endpoints.mapM retrieve s =
      (.ok [p.atoms.map Atom.position], s.read p e) := by
    rw [hendpoints, List.mapM_cons, bind_of_ok hread]
    rfl
  refine run_of_parts hreads heval ?_
  rw [hendpoints]
  exact (bind_of_ok hwrite _).trans rfl

/-- Two patches of an assembly that a task may read. -/
structure ReadablePair (s : Assembly) (p p' : Patch) (e e' : Endpoint) : Prop where
  /-- no two patches have the same number -/
  nodup : (s.patches.map Patch.id).Nodup
  /-- the first patch is there -/
  mem : p ∈ s.patches
  /-- it can be read -/
  first : p.Readable e
  /-- the second patch is there -/
  mem' : p' ∈ s.patches
  /-- it can be read -/
  second : p'.Readable e'
  /-- they are two -/
  ne : p.id ≠ p'.id

namespace ReadablePair

variable (h : ReadablePair s p p' e e')

include h

theorem read_ne : p'.id ≠ (p.retrievePositions e.positions).patch.id := by
  rw [h.first.id_retrieve]
  exact h.ne.symm

theorem nodup_both : (((s.read p e).read p' e').patches.map Patch.id).Nodup :=
  nodup_read (nodup_read h.nodup p e) p' e'

theorem mem_both : (p.retrievePositions e.positions).patch ∈ ((s.read p e).read p' e').patches := by
  refine Assembly.mem_answered_of_ne (mem_read h.mem h.first) ?_
  rw [h.second.id_retrieve]
  exact h.read_ne.symm

/-- **Both patches are read.** -/
theorem retrieves (hendpoints : t.endpoints = [e, e']) :
    t.endpoints.mapM retrieve s =
      (.ok [p.atoms.map Atom.position, p'.atoms.map Atom.position], (s.read p e).read p' e') := by
  have hread := retrieve_eq h.nodup h.mem h.first
  have hmem : p' ∈ (s.read p e).patches := Assembly.mem_answered_of_ne h.mem' h.read_ne
  have hread' := retrieve_eq (nodup_read h.nodup p e) hmem h.second
  rw [hendpoints, List.mapM_cons, bind_of_ok hread, List.mapM_cons, bind_assoc, bind_of_ok hread']
  rfl

/-- **The first patch is served** as if the other one had not been read yet. -/
theorem deposits_first (law : ForceLaw) (hready : p.ReadyFor e) (hfits : forces.length = p.size) :
    deposit law.channel e forces ((s.read p e).read p' e') =
      (.ok (), (s.served p e ⟨law.channel, forces⟩).read p' e') := by
  have hserved_ne : (p'.retrievePositions e'.positions).patch.id ≠
      (p.served e ⟨law.channel, forces⟩).patch.id := by
    rw [h.first.id_served, h.second.id_retrieve]
    exact h.ne.symm
  have hwrite := deposit_eq law h.nodup_both h.mem_both hready hfits
  have hcomm : ((s.read p e).read p' e').served p e ⟨law.channel, forces⟩ =
      ((s.read p e).served p e ⟨law.channel, forces⟩).read p' e' :=
    Assembly.answered_comm hserved_ne
  rw [hcomm, served_of_read h.first] at hwrite
  exact hwrite

theorem nodup_served (d : ForceDeposit) : ((s.served p e d).patches.map Patch.id).Nodup :=
  Assembly.nodup_answered h.nodup _ _

/-- The second patch is there once the first one is served. -/
theorem mem_served (d : ForceDeposit) : p' ∈ (s.served p e d).patches := by
  refine Assembly.mem_answered_of_ne h.mem' ?_
  rw [h.first.id_served]
  exact h.ne.symm

end ReadablePair

/-- **A task on two patches** reads both and deposits on both. -/
theorem run_pair (nodup : (s.patches.map Patch.id).Nodup) (hendpoints : t.endpoints = [e, e'])
    (hne : e.patch ≠ e'.patch) (hp : p ∈ s.patches) (h : p.ReadyFor e) (hp' : p' ∈ s.patches)
    (h' : p'.ReadyFor e')
    (heval : evaluate law grid [p.atoms.map Atom.position, p'.atoms.map Atom.position] =
      .ok ([forces, forces'], counts))
    (hfits : forces.length = p.size) (hfits' : forces'.length = p'.size) :
    t.run law grid s = (.ok counts,
      (s.served p e ⟨law.channel, forces⟩).served p' e' ⟨law.channel, forces'⟩) := by
  have hids : p.id ≠ p'.id := by
    rw [h.patch, h'.patch]
    exact hne
  have hpair : ReadablePair s p p' e e' := ⟨nodup, hp, h.readable, hp', h'.readable, hids⟩
  have hwrite := hpair.deposits_first law h hfits
  have hwrite' := deposit_eq law (nodup_read (hpair.nodup_served ⟨law.channel, forces⟩) p' e')
    (mem_read (hpair.mem_served ⟨law.channel, forces⟩) h'.readable) h' hfits'
  rw [served_of_read h'.readable] at hwrite'
  refine run_of_parts (hpair.retrieves hendpoints) heval ?_
  rw [hendpoints]
  exact (bind_of_ok hwrite _).trans ((bind_of_ok hwrite' _).trans rfl)

/-- **A task computes the reference.** Take an assembly of patches with different numbers, and a
task on one of them or on two, ready for it, with whatever atoms, law and grid. The run succeeds. On
each of its patches it deposits, in the channel of the law, one force for each atom: on one patch
the forces within its list, on two patches those between the lists, each partner by partner in
order, added where the atom is the first of the pair and subtracted where it is the second. It
counts the pairs, and the pairs with a force other than zero. Nothing else changes in the
assembly. -/
theorem run_computes_reference (distinct : (s.patches.map Patch.id).Nodup) (t : ForceTask)
    (law : ForceLaw) (grid : Grid) :
    (∀ e, t.endpoints = [e] → ∀ p ∈ s.patches, p.ReadyFor e →
      let list := p.atoms.map Atom.position
      let n := list.length
      let d : ForceDeposit := ⟨law.channel, (List.range n).map (forceWithin law grid list)⟩
      d.forces.length = p.size ∧ (p.served e d).outcome = .ok () ∧
      t.run law grid s = (.ok ⟨n * (n - 1) / 2, interactingWithin law grid list⟩, s.served p e d)) ∧
    ∀ e e', t.endpoints = [e, e'] → e.patch ≠ e'.patch →
      ∀ p ∈ s.patches, p.ReadyFor e → ∀ p' ∈ s.patches, p'.ReadyFor e' →
      let first := p.atoms.map Atom.position
      let second := p'.atoms.map Atom.position
      let d : ForceDeposit := ⟨law.channel, first.map (forceOnFirst law grid second)⟩
      let d' : ForceDeposit := ⟨law.channel, second.map (forceOnSecond law grid first)⟩
      d.forces.length = p.size ∧ d'.forces.length = p'.size ∧
      (p.served e d).outcome = .ok () ∧ (p'.served e' d').outcome = .ok () ∧
      t.run law grid s =
        (.ok ⟨first.length * second.length, interactingBetween law grid first second⟩,
          (s.served p e d).served p' e' d') := by
  refine ⟨fun e hendpoints p hp h => ?_, fun e e' hendpoints hne p hp h p' hp' h' => ?_⟩
  · intro list n d
    have hfits : d.forces.length = p.size := by simp [d, n, list, Patch.size]
    exact ⟨hfits, by rw [h.deposit hfits],
      run_self distinct hendpoints hp h (evaluate_self law grid list) hfits⟩
  · intro first second d d'
    have hfits : d.forces.length = p.size := by simp [d, first, Patch.size]
    have hfits' : d'.forces.length = p'.size := by simp [d', second, Patch.size]
    exact ⟨hfits, hfits', by rw [h.deposit hfits], by rw [h'.deposit hfits'],
      run_pair distinct hendpoints hne hp h hp' h' (evaluate_pair law grid first second) hfits
        hfits'⟩

/-- A task on two patches, on one of which another one has deposited already; and one on the first
of them alone. -/
theorem run_computes_reference_two :
    let p := (Patch.new ⟨0⟩ 0 false).after [.editAtoms fun _ => [⟨0, Vec3.zero⟩, ⟨1, ⟨0.5, 0, 0⟩⟩],
      .register .position ⟨5⟩, .register .force ⟨5⟩, .positionsReady 0]
    let p' := (Patch.new ⟨1⟩ 3 false).after [.editAtoms fun _ => [⟨2, ⟨0.25, 0, 0⟩⟩],
      .register .position ⟨5⟩, .register .force ⟨5⟩, .register .force ⟨6⟩, .positionsReady 0,
      .deposit ⟨5, ⟨6⟩, 2⟩ ⟨.slow, [Vec3.zero]⟩]
    let e : Endpoint := ⟨⟨0⟩, ⟨0, ⟨5⟩, 1⟩, ⟨2, ⟨5⟩, 1⟩⟩
    let e' : Endpoint := ⟨⟨1⟩, ⟨3, ⟨5⟩, 1⟩, ⟨5, ⟨5⟩, 1⟩⟩
    let s := { Assembly.build ⟨4, 0, false, 4⟩ [] with patches := [p, p'] }
    let law := SoftSpring.law ⟨1, 1⟩
    let grid := Grid.new 2 1
    (s.patches.map Patch.id).Nodup ∧ p.ReadyFor e ∧ p'.ReadyFor e' ∧
    (∃ s', run ⟨⟨5⟩, [e]⟩ law grid s =
      (.ok ⟨1, interactingWithin law grid [Vec3.zero, ⟨0.5, 0, 0⟩]⟩, s')) ∧
    ∃ s', run ⟨⟨5⟩, [e, e']⟩ law grid s =
      (.ok ⟨2, interactingBetween law grid [Vec3.zero, ⟨0.5, 0, 0⟩] [⟨0.25, 0, 0⟩]⟩, s') := by
  intro p p' e e' s law grid
  have distinct : (s.patches.map Patch.id).Nodup := by decide
  have h : p.ReadyFor e := ⟨⟨⟨0⟩, 0, false, _, rfl⟩, rfl, by decide, by decide, _, rfl, by decide⟩
  have h' : p'.ReadyFor e' :=
    ⟨⟨⟨1⟩, 3, false, _, rfl⟩, rfl, by decide, by decide, _, rfl, by decide⟩
  have hfirst : p.atoms.map Atom.position = [Vec3.zero, ⟨0.5, 0, 0⟩] := rfl
  have hsecond : p'.atoms.map Atom.position = [⟨0.25, 0, 0⟩] := rfl
  obtain ⟨hself, -⟩ := run_computes_reference distinct ⟨⟨5⟩, [e]⟩ law grid
  obtain ⟨-, hpair⟩ := run_computes_reference distinct ⟨⟨5⟩, [e, e']⟩ law grid
  have hself := (hself e rfl p (by simp [s]) h).2.2
  have hpair := (hpair e e' rfl (by decide) p (by simp [s]) h p' (by simp [s]) h').2.2.2.2
  rw [hfirst] at hself
  rw [hfirst, hsecond] at hpair
  exact ⟨distinct, h, h', ⟨_, hself⟩, _, hpair⟩

end ForceTask

end PatchDynamics
