import PatchDynamics.Proofs.Experiment.Forces
import PatchDynamics.Proofs.Experiment.Migration
import PatchDynamics.Proofs.Experiment.Motion
import PatchDynamics.Proofs.Experiment.Output
import PatchDynamics.Proofs.Schedule.Registration

/-!
# One step of an experiment

What holds of a run before each of its steps, and what one step makes of it:

* `Runnable` — the plans in question;
* `Underway` — the invariant: the patches are at rest with tasks for each of them, all particles are
  where the directory says, or none is before the first step, and no frame is under way;
* `migrate_ok`, `work_ok` — the migration phase, and the phases up to the integration;
* `Advanced`, `advance_of_migrated` — what a step makes of particles that are in place;
* `advance_ok` — one step does not fail and keeps the invariant.
-/

namespace PatchDynamics.Experiment

/-! ## Plans -/

/-- A plan's grid has at least one cell along each axis. -/
theorem Plan.side_pos (plan : Plan) : 0 < plan.grid.side :=
  Nat.lt_of_lt_of_le Nat.one_pos (Nat.le_max_right plan.config.grid 1)

/-- A plan for a grid whose tasks can be numbered, with fewer particles than there are numbers, that
validates and runs all tasks in each step. -/
structure Runnable (plan : Plan) : Prop where
  /-- the configuration validates -/
  valid : plan.config.validate = .ok ()
  /-- particles can be numbered -/
  particles : plan.config.particles < UInt32.size
  /-- the patches can be numbered -/
  patches : plan.grid.cells < UInt32.size
  /-- so can the tasks, one for each patch and one for each pair of neighbours -/
  tasks : ∀ pairs, plan.grid.neighborPairs = .ok pairs →
    plan.grid.cells + pairs.length < UInt32.size
  /-- the tasks of a step run in some order -/
  order : ∀ step tasks, (plan.order step tasks).Perm tasks

theorem Runnable.fits {plan : Plan} (h : Runnable plan) : plan.grid.Fits :=
  ⟨plan.side_pos, h.patches⟩

/-! ## Between steps -/

/-- Patches at rest between steps, each with a task. -/
structure Staffed (ids : List PatchId) (tasks : List ForceTask) (patches : List Patch) : Prop where
  /-- the tasks are ready for a step -/
  ready : Ready ids tasks patches
  /-- what is out is what they hold -/
  holding : Holding ids (tasks.flatMap ForceTask.endpoints) patches
  /-- each patch has a task -/
  served : ∀ id ∈ ids, ∃ t ∈ tasks, ∃ e ∈ t.endpoints, id = e.patch

namespace Staffed

variable {ids : List PatchId} {tasks : List ForceTask} {patches : List Patch}

theorem map (h : Staffed ids tasks patches) {f : Patch → Patch}
    (hf : ∀ p ∈ patches, p.Continues (f p) ∧ (f p).AtRest) : Staffed ids tasks (patches.map f) :=
  ⟨h.ready.map hf, h.holding.map hf, h.served⟩

/-- Changes between steps are no matter for tasks. -/
theorem edited (h : Staffed ids tasks patches) {f : Patch → Patch}
    (hf : ∀ p ∈ patches, p.Edited (f p)) : Staffed ids tasks (patches.map f) :=
  h.map fun p hp => ⟨(hf p hp).continues, (h.ready.enrolled.resting p hp).edited (hf p hp)⟩

theorem closed (h : Staffed ids tasks patches) {p : Patch} (hp : p ∈ patches) : p.openBoxes = 0 :=
  (h.ready.enrolled.resting p hp).stands.openBoxes_eq

theorem sorted (h : Staffed ids tasks patches) (grid : Grid) (atoms : List Atom) :
    Staffed ids tasks (sorted grid atoms patches) :=
  h.edited fun _ _ => ⟨_, _, _, _, rfl⟩

theorem afterStep {s : Assembly} (h : Staffed ids tasks s.patches) (tag : PatchId → UInt32)
    (laws : ComputeId → ForceLaw) (grid : Grid) :
    Staffed ids tasks (afterStep laws grid tasks (s.positionsReady tag).patches) := by
  rw [PatchDynamics.afterStep, Assembly.positionsReady, List.map_map]
  exact h.map fun p hp => h.ready.stepped tag laws grid hp

end Staffed

/-- The particles of a run before step `k`. -/
inductive Population (n k : Nat) (run : Run) : Prop where
  /-- before the first step they all wait to be sent to a patch -/
  | waiting {atoms : List Atom} (first : k = 1) (waiting : run.waiting = some atoms)
    (all : atoms.map Atom.id = particleIds n) (sound : Sound n run.assembly)
    (empty : ∀ p ∈ run.assembly.patches, p.ids = [])
  /-- later each one is in a patch -/
  | settled (later : k ≠ 1) (nobody : run.waiting = none) (settled : Settled n run.assembly)

/-- What holds of a run before step `k`. -/
structure Underway (plan : Plan) (k : Nat) (run : Run) : Prop where
  /-- the patches are at rest and have tasks -/
  staffed : Staffed plan.grid.patches run.tasks run.assembly.patches
  /-- the particles wait or are in patches -/
  population : Population plan.config.particles k run
  /-- each particle has a velocity -/
  velocities : run.velocities.size = plan.config.particles
  /-- no frame is under way -/
  collecting : Collecting run.assembly.collection plan.grid.cells k 0 0

variable {plan : Plan} {k : Nat} {run : Run}

theorem Underway.named (h : Underway plan k run) : run.assembly.patchIds = plan.grid.patches :=
  h.staffed.ready.enrolled.named

/-! ## Migration -/

/-- The counts that a step is to report: particles that have left their patches when a migration is
due, and all particles as unassigned in the first step. -/
def expectedCounts (plan : Plan) (run : Run) (k : Nat) : Migration where
  migrations :=
    if k ≠ 1 ∧ (k - 1) % plan.config.migrationPeriod = 0 then
      strays plan.grid run.assembly.patches
    else 0
  unassigned := if k = 1 then plan.config.particles else 0

/-- A run with particles in other patches, and none waiting. -/
def Run.placed (run : Run) (d : Directory) (patches : List Patch) : Run :=
  { run with
    assembly := { run.assembly with directory := d, patches := patches }
    waiting := none }

theorem Run.placed_self (h : run.waiting = none) :
    run.placed run.assembly.directory run.assembly.patches = run := by
  rw [placed, ← h]

/-- Particles that wait are sent to their patches. -/
theorem migrate_waiting (hplan : Runnable plan) (h : Underway plan k run) {atoms : List Atom}
    (hwaiting : run.waiting = some atoms)
    (hall : atoms.map Atom.id = particleIds plan.config.particles)
    (hsound : Sound plan.config.particles run.assembly)
    (hempty : ∀ p ∈ run.assembly.patches, p.ids = []) :
    ∃ d patches, migrate plan run k =
        .ok (some ⟨0, plan.config.particles⟩, run.placed d patches) ∧
      Settled plan.config.particles (run.placed d patches).assembly ∧
      Staffed plan.grid.patches run.tasks patches := by
  obtain ⟨d, hassign, hsettled⟩ := assign_ok (Nat.le_of_lt hplan.particles) hplan.fits h.named
    (fun p hp => h.staffed.closed hp) hsound (.of_eq hall)
  obtain ⟨hmoved, hlost⟩ := hsound.counts_of_empty hempty plan.grid atoms
  have hlength : atoms.length = plan.config.particles := by
    rw [← List.length_map Atom.id, hall, length_particleIds]
  rw [hmoved, hlost, hlength] at hassign
  refine ⟨d, _, ?_, hsettled, h.staffed.sorted plan.grid atoms⟩
  rw [migrate, hwaiting]
  dsimp only
  rw [hassign]
  rfl

/-- After a migration period all particles are sent to the patches that hold their positions. -/
theorem migrate_due (hplan : Runnable plan) (h : Underway plan k run) (hnobody : run.waiting = none)
    (hsettled : Settled plan.config.particles run.assembly)
    (hdue : (k - 1) % plan.config.migrationPeriod = 0) :
    ∃ d patches, migrate plan run k =
        .ok (some ⟨strays plan.grid run.assembly.patches, 0⟩, run.placed d patches) ∧
      Settled plan.config.particles (run.placed d patches).assembly ∧
      Staffed plan.grid.patches run.tasks patches := by
  have hlisted : ((run.assembly.patches.flatMap Patch.atoms).map Atom.id).Perm
      (particleIds plan.config.particles) := by
    rw [List.map_flatMap]
    exact hsettled.listed
  obtain ⟨d, hassign, hsettled'⟩ := assign_ok (Nat.le_of_lt hplan.particles) hplan.fits h.named
    (fun p hp => h.staffed.closed hp) hsettled.toSound hlisted
  obtain ⟨hmoved, hlost⟩ := hsettled.counts hplan.fits
  rw [hmoved, hlost] at hassign
  refine ⟨d, _, ?_, hsettled', h.staffed.sorted plan.grid _⟩
  rw [migrate, hnobody]
  dsimp only
  rw [if_pos hdue, hassign, Run.placed]
  rfl

/-- **The migration phase** does not fail, counts as it should, and leaves each particle in a
patch. -/
theorem migrate_ok (hplan : Runnable plan) (h : Underway plan k run) :
    ∃ migration d patches, migrate plan run k = .ok (migration, run.placed d patches) ∧
      migration.getD ⟨0, 0⟩ = expectedCounts plan run k ∧
      Settled plan.config.particles (run.placed d patches).assembly ∧
      Staffed plan.grid.patches run.tasks patches := by
  rw [expectedCounts]
  rcases h.population with @⟨atoms, rfl, hwaiting, hall, hsound, hempty⟩ |
    ⟨hlater, hnobody, hsettled⟩
  · obtain ⟨d, patches, hmigrate, hplaced⟩ := migrate_waiting hplan h hwaiting hall hsound hempty
    refine ⟨_, d, patches, hmigrate, ?_, hplaced⟩
    rw [if_neg fun hlater => hlater.1 rfl, if_pos rfl]
    rfl
  · rw [if_neg hlater]
    by_cases hdue : (k - 1) % plan.config.migrationPeriod = 0
    · obtain ⟨d, patches, hmigrate, hplaced⟩ := migrate_due hplan h hnobody hsettled hdue
      refine ⟨_, d, patches, hmigrate, ?_, hplaced⟩
      rw [if_pos ⟨hlater, hdue⟩]
      rfl
    · -- nobody moves
      refine ⟨none, run.assembly.directory, run.assembly.patches, ?_, ?_, ?_, h.staffed⟩
      · rw [migrate, hnobody, Run.placed_self hnobody]
        exact if_neg hdue
      · rw [if_neg fun hboth => hdue hboth.2]
        rfl
      · rw [Run.placed_self hnobody]
        exact hsettled

/-! ## Publication, forces and integration -/

section Work

variable {ids : List PatchId} {tasks : List ForceTask} {s : Assembly} {velocities : Array Vec3}

/-- Integration leaves all particles where they are listed, and the patches at rest. -/
theorem integrate_ok (plan : Plan) (hstaffed : Staffed ids tasks s.patches)
    (hfits : ∀ p ∈ s.patches, ∀ id ∈ p.ids, id.toNat < velocities.size) :
    ∃ patches motion, moveAll plan s.patches ⟨velocities, 0⟩ = .ok (patches, motion) ∧
      Staffed ids tasks patches ∧
      patches.map (fun p => (p.id, p.ids)) = s.patches.map (fun p => (p.id, p.ids)) ∧
      motion.velocities.size = velocities.size := by
  have hdistinct : (s.patches.map Patch.id).Nodup := by
    rw [hstaffed.ready.enrolled.named]
    exact hstaffed.ready.enrolled.distinct
  obtain ⟨f, motion, hmove, hmoved, hsize⟩ := moveAll_ok plan ⟨velocities, 0⟩ hdistinct
    (fun p hp => hstaffed.closed hp) hfits
  refine ⟨_, motion, hmove, hstaffed.edited fun p hp => (hmoved p hp).1, ?_, hsize⟩
  rw [List.map_map]
  refine List.map_congr_left fun p hp => ?_
  obtain ⟨hedited, hids⟩ := hmoved p hp
  exact Prod.ext hedited.continues.id hids

/-- Particles that have velocities still have them if the patches list the same ones. -/
theorem fits_of_lists {n : Nat} {l l' : List Patch} (h : ∀ p ∈ l, ∀ id ∈ p.ids, id.toNat < n)
    (hlists : l'.map (fun p => (p.id, p.ids)) = l.map fun p => (p.id, p.ids)) :
    ∀ p ∈ l', ∀ id ∈ p.ids, id.toNat < n := by
  intro p hp id hid
  have hmem : (p.id, p.ids) ∈ l'.map fun p => (p.id, p.ids) := List.mem_map_of_mem hp
  rw [hlists] at hmem
  obtain ⟨q, hq, hsame⟩ := List.mem_map.mp hmem
  have hids : q.ids = p.ids := congrArg Prod.snd hsame
  rw [← hids] at hid
  exact h q hq id hid

/-- **From publication to integration** nothing fails, whatever forces act: the patches are at rest
again, and list the particles that they listed before. -/
theorem work_ok (plan : Plan) {order : List ForceTask} (hstaffed : Staffed ids tasks s.patches)
    (hfits : ∀ p ∈ s.patches, ∀ id ∈ p.ids, id.toNat < velocities.size)
    (hperm : order.Perm tasks) (migrated : Bool) (step : Nat) :
    ∃ s₁ pairs s₂ s₃ patches motion, publish migrated s = .ok s₁ ∧
      runTasks plan.law plan.grid order 0 s₁ = .ok (pairs, s₂) ∧
      awaitBoxes step s₂ = .ok s₃ ∧
      moveAll plan s₃.patches ⟨velocities, 0⟩ = .ok (patches, motion) ∧
      Staffed ids tasks patches ∧
      patches.map (fun p => (p.id, p.ids)) = s.patches.map (fun p => (p.id, p.ids)) ∧
      motion.velocities.size = velocities.size ∧ s₃.directory = s.directory ∧
      s₃.collection = s.collection := by
  have hserved : ∀ p ∈ s.patches, ∃ t ∈ tasks, ∃ e ∈ t.endpoints, p.id = e.patch := by
    intro p hp
    refine hstaffed.served p.id ?_
    rw [← hstaffed.ready.enrolled.named]
    exact List.mem_map_of_mem hp
  have hpublish := publish_ok migrated hstaffed.ready.enrolled.resting
  obtain ⟨pairs, s₂, hruns, hawait, hframe, hpatches⟩ := forces_ok hstaffed.ready hserved
    (fun _ => if migrated then 1 else 0) plan.law plan.grid hperm step
  have hdirectory : s₂.frame.directory = s.frame.directory := by rw [hframe]
  have hcollection : s₂.frame.collection = s.frame.collection := by rw [hframe]
  -- the patches after the tasks have run
  have hstaffed₂ : Staffed ids tasks s₂.takeSignals.2.patches := by
    change Staffed ids tasks s₂.patches
    rw [hpatches]
    exact hstaffed.afterStep _ _ _
  have hlists₂ : s₂.takeSignals.2.patches.map (fun p => (p.id, p.ids)) =
      s.patches.map fun p => (p.id, p.ids) := by
    change s₂.patches.map _ = _
    rw [hpatches]
    exact lists_afterStep hstaffed.ready _ _ _
  obtain ⟨patches, motion, hmove, hstaffed', hlists, hsize⟩ :=
    integrate_ok plan hstaffed₂ (fits_of_lists hfits hlists₂)
  exact ⟨_, pairs, s₂, _, patches, motion, hpublish, hruns, hawait, hmove, hstaffed',
    hlists.trans hlists₂, hsize, hdirectory, hcollection⟩

end Work

/-! ## A step -/

/-- A step whose phases do not fail. -/
theorem advance_of_phases {migration : Option Migration} {placed : Run} {s₁ s₂ s₃ : Assembly}
    {pairs : Nat} {patches : List Patch} {motion : Motion}
    (hmigrate : migrate plan run k = .ok (migration, placed))
    (hpublish : publish migration.isSome placed.assembly = .ok s₁)
    (hruns : runTasks plan.law plan.grid (plan.order k placed.tasks) 0 s₁ = .ok (pairs, s₂))
    (hawait : awaitBoxes k s₂ = .ok s₃)
    (hmove : moveAll plan s₃.patches ⟨placed.velocities, 0⟩ = .ok (patches, motion)) :
    ∃ metrics, advance plan run k = .ok (metrics, output plan { placed with
        assembly := { s₃ with patches := patches }
        velocities := motion.velocities } k) ∧
      metrics.step = k ∧
      ⟨metrics.migrations, metrics.unassigned⟩ = migration.getD ⟨0, 0⟩ := by
  rw [advance, hmigrate]
  dsimp only [bind, Except.bind]
  rw [hpublish]
  dsimp only
  rw [hruns]
  dsimp only
  rw [hawait]
  dsimp only
  rw [hmove]
  exact ⟨_, rfl, rfl, rfl⟩

/-- What step `k` makes of a run, once its migration phase has put the particles in place. -/
structure Advanced (plan : Plan) (k : Nat) (placed after : Run) : Prop where
  /-- the patches are at rest and have tasks -/
  staffed : Staffed plan.grid.patches after.tasks after.assembly.patches
  /-- they list the same particles -/
  lists : after.assembly.patches.map (fun p => (p.id, p.ids)) =
    placed.assembly.patches.map fun p => (p.id, p.ids)
  /-- the directory is the same -/
  directory : after.assembly.directory = placed.assembly.directory
  /-- nobody waits who has not waited -/
  waiting : after.waiting = placed.waiting
  /-- there are as many velocities -/
  velocities : after.velocities.size = placed.velocities.size
  /-- no frame is under way -/
  collecting : Collecting after.assembly.collection plan.grid.cells (k + 1) 0 0
  /-- frames of an output period are collected -/
  frames : after.frames = placed.frames ++
    framesOf plan.config (placed.assembly.patches.flatMap Patch.ids).length k
  /-- no slice is refused -/
  rejected : after.rejected = placed.rejected

/-- **After the migration phase** a step does not fail, as long as each particle has a velocity. -/
theorem advance_of_migrated {migration : Option Migration} {placed : Run}
    (hmigrate : migrate plan run k = .ok (migration, placed))
    (hperm : (plan.order k placed.tasks).Perm placed.tasks)
    (hstaffed : Staffed plan.grid.patches placed.tasks placed.assembly.patches)
    (hfits : ∀ p ∈ placed.assembly.patches, ∀ id ∈ p.ids, id.toNat < placed.velocities.size)
    (hcollecting : Collecting placed.assembly.collection plan.grid.cells k 0 0) :
    ∃ metrics after, advance plan run k = .ok (metrics, after) ∧ metrics.step = k ∧
      ⟨metrics.migrations, metrics.unassigned⟩ = migration.getD ⟨0, 0⟩ ∧
      Advanced plan k placed after := by
  obtain ⟨s₁, pairs, s₂, s₃, patches, motion, hpublish, hruns, hawait, hmove, hstaffed', hlists,
    hsize, hdirectory, hcollection⟩ := work_ok plan hstaffed hfits hperm migration.isSome k
  obtain ⟨metrics, hadvance, hstep, hmetrics⟩ :=
    advance_of_phases hmigrate hpublish hruns hawait hmove
  -- frames are made of what all patches list
  have hall : patches.length = plan.grid.cells :=
    length_of_named (s := { s₃ with patches := patches }) hstaffed'.ready.enrolled.named
  have hids : patches.flatMap Patch.ids = placed.assembly.patches.flatMap Patch.ids := by
    have hflat := congrArg (List.flatMap Prod.snd) hlists
    rwa [List.flatMap_map, List.flatMap_map] at hflat
  obtain ⟨c, houtput, hcollecting'⟩ := output_ok plan { placed with
    assembly := { s₃ with patches := patches }
    velocities := motion.velocities } (hcollection ▸ hcollecting) (Nat.le_refl k) hall
  rw [houtput] at hadvance
  refine ⟨metrics, _, hadvance, hstep, hmetrics, hstaffed', hlists, hdirectory, rfl, hsize,
    hcollecting', ?_, rfl⟩
  rw [← hids]
  rfl

/-- Particles that are in patches have velocities. -/
theorem Settled.fits {n : Nat} {s : Assembly} (h : Settled n s) :
    ∀ p ∈ s.patches, ∀ id ∈ p.ids, id.toNat < n := fun p hp _ hid =>
  toNat_lt_of_mem (h.listed.mem_iff.mp (List.mem_flatMap.mpr ⟨p, hp, hid⟩))

/-- **One step** does not fail: it reports what it should, the frames of an output period are
collected, no slice is refused, and all is as before a step again. -/
theorem advance_ok (hplan : Runnable plan) (hk : 1 ≤ k) (h : Underway plan k run) :
    ∃ metrics after, advance plan run k = .ok (metrics, after) ∧ metrics.step = k ∧
      ⟨metrics.migrations, metrics.unassigned⟩ = expectedCounts plan run k ∧
      Underway plan (k + 1) after ∧
      after.frames = run.frames ++ framesOf plan.config plan.config.particles k ∧
      after.rejected = run.rejected := by
  obtain ⟨migration, d, patches, hmigrate, hcounts, hsettled, hstaffed⟩ := migrate_ok hplan h
  have hfits := hsettled.fits
  rw [← h.velocities] at hfits
  obtain ⟨metrics, after, hadvance, hstep, hmetrics, hafter⟩ :=
    advance_of_migrated hmigrate (hplan.order k run.tasks) hstaffed hfits h.collecting
  have hframes := hafter.frames
  rw [hsettled.length_eq] at hframes
  refine ⟨metrics, after, hadvance, hstep, hmetrics.trans hcounts, ⟨hafter.staffed, ?_,
    hafter.velocities.trans h.velocities, hafter.collecting⟩, hframes, hafter.rejected⟩
  exact .settled (Nat.succ_ne_succ_iff.mpr (Nat.ne_of_gt hk)) hafter.waiting
    (hsettled.congr hafter.directory hafter.lists)

end PatchDynamics.Experiment
