import PatchDynamics.Proofs.Experiment.Underway
import PatchDynamics.Proofs.Schedule.Independence

/-!
# The start of an experiment

Particles are generated, an assembly with empty patches is built, and tasks are registered for all
of them:

* `generate_ok` — when particles can be generated, and `map_id_generate`, their numbers;
* `staffed_of_new` — a new assembly with its tasks registered;
* `start_of_parts`, `start_staffed` — a start whose parts do not fail, and when they do not;
* `start_ok` — a start does not fail once the particles are there, and all is as before a step.
-/

namespace PatchDynamics

/-! ## Particles -/

namespace Particles

variable {spec : ParticleSpec} {h : Float} {s : RandomStream}

theorem drawVector_ok (hrange : drawable h = true) (s : RandomStream) :
    ∃ v s', drawVector h s = .ok (v, s') := by
  have hnumber : ∀ s, ∃ x s', drawNumber h s = .ok (x, s') := fun s => ⟨_, _, if_pos hrange⟩
  obtain ⟨x, s₁, hx⟩ := hnumber s
  obtain ⟨y, s₂, hy⟩ := hnumber s₁
  obtain ⟨z, s₃, hz⟩ := hnumber s₂
  refine ⟨⟨x, y, z⟩, s₃, ?_⟩
  rw [drawVector, hx]
  dsimp only [bind, Except.bind]
  rw [hy]
  dsimp only
  rw [hz]
  rfl

theorem draw_ok (hpositions : drawable spec.halfWidth = true)
    (hvelocities : spec.maxVelocity > 0 → drawable spec.maxVelocity = true) (number : Nat)
    (s : RandomStream) : ∃ p s', draw spec number s = .ok (p, s') := by
  obtain ⟨position, s₁, hposition⟩ := drawVector_ok hpositions s
  rw [draw, hposition]
  dsimp only [bind, Except.bind]
  split
  · next hmoving =>
    obtain ⟨velocity, s₂, hvelocity⟩ := drawVector_ok (hvelocities hmoving) s₁
    rw [hvelocity]
    exact ⟨_, _, rfl⟩
  · exact ⟨_, _, rfl⟩

theorem drawAll_ok (hpositions : drawable spec.halfWidth = true)
    (hvelocities : spec.maxVelocity > 0 → drawable spec.maxVelocity = true) (left number : Nat)
    (s : RandomStream) (done : List Particle) :
    ∃ particles, drawAll spec left number s done = .ok particles := by
  induction left generalizing number s done with
  | zero => exact ⟨_, rfl⟩
  | succ left ih =>
    obtain ⟨p, s', hp⟩ := draw_ok hpositions hvelocities number s
    rw [drawAll.eq_def]
    dsimp only
    rw [hp]
    exact ih (number + 1) s' (p :: done)

/-- **Particles can be generated** if the ranges they are drawn from have points. -/
theorem generate_ok (hroom : spec.count * particleBytes ≤ Failure.addressable)
    (hpositions : drawable spec.halfWidth = true)
    (hvelocities : spec.maxVelocity > 0 → drawable spec.maxVelocity = true) (s : RandomStream) :
    ∃ particles, generate spec s = .ok particles := by
  obtain ⟨particles, hparticles⟩ := drawAll_ok hpositions hvelocities spec.count 0 s []
  refine ⟨atRest particles, ?_⟩
  rw [generate, Failure.ensureAddressable, if_pos hroom]
  dsimp only [bind, Except.bind]
  rw [hparticles]
  rfl

theorem id_of_draw {number : Nat} {p : Particle} {s' : RandomStream}
    (hdraw : draw spec number s = .ok (p, s')) : p.id = UInt32.ofNat number := by
  obtain ⟨⟨position, s₁⟩, -, hdraw⟩ := exists_ok_of_bind hdraw
  dsimp only at hdraw
  split at hdraw
  all_goals
    obtain ⟨⟨velocity, s₂⟩, -, hdraw⟩ := exists_ok_of_bind hdraw
    cases hdraw
    rfl

theorem map_id_drawAll {left number : Nat} {done particles : List Particle}
    (hdraw : drawAll spec left number s done = .ok particles) :
    particles.map Particle.id =
      done.reverse.map Particle.id ++ (List.range' number left).map UInt32.ofNat := by
  induction left generalizing number s done with
  | zero =>
    cases hdraw
    exact (List.append_nil _).symm
  | succ left ih =>
    rw [drawAll.eq_def] at hdraw
    dsimp only at hdraw
    cases hfirst : draw spec number s with
    | error e =>
      rw [hfirst] at hdraw
      cases hdraw
    | ok result =>
      obtain ⟨p, s'⟩ := result
      rw [hfirst] at hdraw
      rw [ih hdraw, List.range'_succ, List.reverse_cons, List.map_append, List.map_singleton,
        id_of_draw hfirst, List.append_assoc]
      rfl

/-- **The numbers** of generated particles. -/
theorem map_id_generate {particles : List Particle} (hgenerate : generate spec s = .ok particles) :
    particles.map Particle.id = (List.range spec.count).map UInt32.ofNat := by
  obtain ⟨-, -, hgenerate⟩ := exists_ok_of_bind hgenerate
  obtain ⟨drawn, hdraw, hgenerate⟩ := exists_ok_of_bind hgenerate
  cases hgenerate
  rw [atRest, List.map_map, List.range_eq_range']
  exact map_id_drawAll hdraw

end Particles

namespace Experiment

/-! ## A new assembly -/

section New

variable {settings : Settings} {ids : List PatchId}

theorem new_named (settings : Settings) (ids : List PatchId) :
    (Assembly.build settings ids).patches.map Patch.id = ids := by
  rw [Assembly.build, Assembly.newPatches, List.map_map]
  exact List.zipIdx_map_fst ..

theorem new_patch {p : Patch} (hp : p ∈ (Assembly.build settings ids).patches) :
    ∃ id serial averaged, p = Patch.new id serial averaged := by
  obtain ⟨⟨id, i⟩, -, rfl⟩ := List.mem_map.mp hp
  exact ⟨id, 3 * i, settings.averaged, rfl⟩

/-- No handles are out. -/
theorem new_holding (hdistinct : ids.Nodup) :
    Holding ids [] (Assembly.build settings ids).patches := by
  refine Holding.of_free (new_named settings ids) hdistinct fun p hp => ?_
  obtain ⟨id, serial, averaged, rfl⟩ := new_patch hp
  exact ⟨rfl, rfl⟩

/-- No particle is anywhere. -/
theorem sound_of_empty {n : Nat} {s : Assembly} (hdirectory : s.directory = .allocate n)
    (hempty : ∀ p ∈ s.patches, p.ids = []) : Sound n s where
  agrees := Assembly.agrees_of_empty hempty fun i => by
    rw [hdirectory]
    exact Directory.slot_replicate_none n i
  tidy := by
    rw [hdirectory]
    exact (Directory.Reached.allocate n).tidy
  capacity := by
    rw [hdirectory]
    exact Directory.capacity_allocate n
  live := by
    rw [hdirectory]
    rfl

theorem build_ok (hcapacity : settings.capacity * 8 ≤ Failure.addressable)
    (hhistory : (settings.history + 1) * 8 ≤ Failure.addressable) (ids : List PatchId) :
    Assembly.build? settings ids = .ok (Assembly.build settings ids) := by
  rw [Assembly.build?, Failure.ensureAddressable, Failure.ensureAddressable, if_pos hcapacity,
    if_pos hhistory]
  rfl

/-- An assembly with the contents of a new one has no particles. -/
theorem ids_of_contents {s : Assembly}
    (hcontents : s.contents = (Assembly.build settings ids).contents) :
    ∀ p ∈ s.patches, p.ids = [] := by
  intro p hp
  have hlists : s.patches.map Patch.ids =
      (Assembly.build settings ids).patches.map Patch.ids := congrArg Prod.snd hcontents
  have hmem : p.ids ∈ s.patches.map Patch.ids := List.mem_map_of_mem hp
  rw [hlists] at hmem
  obtain ⟨q, hq, hids⟩ := List.mem_map.mp hmem
  obtain ⟨id, serial, averaged, rfl⟩ := new_patch hq
  exact hids.symm

/-- **Tasks can be registered** with the patches of a new assembly, and if each patch has a task of
its own, all is ready for a step. -/
theorem staffed_of_new {specs : List Task} (settings : Settings) (hdistinct : ids.Nodup)
    (computes : (specs.map Task.id).Nodup)
    (hspecs : ∀ t ∈ specs, t.patches ≠ [] ∧ t.patches.Nodup ∧ ∀ p ∈ t.patches, p ∈ ids)
    (hown : ∀ p ∈ ids, Grid.selfTask p ∈ specs) :
    ∃ tasks s, specs.mapM ForceTask.register (Assembly.build settings ids) = (.ok tasks, s) ∧
      Staffed ids tasks s.patches ∧ s.contents = (Assembly.build settings ids).contents := by
  obtain ⟨tasks, s, hregistered, hholding, hendpoints⟩ := (new_holding hdistinct).registerAll
    (fun t ht => (hspecs t ht).2) computes fun t _ patch e he => absurd he List.not_mem_nil
  have hnew : Enrolled ((Assembly.build settings ids).patches.map Patch.id) []
      (Assembly.build settings ids).patches :=
    enrolled_nil (by rwa [new_named])
      (fun p hp => (new_of_build hp).1.atRest (new_of_build hp).2.1)
      fun p hp => (new_of_build hp).2.2
  rw [new_named] at hnew
  refine ⟨tasks, s, hregistered, ⟨?_, hholding, fun id hid => ?_⟩, ?_⟩
  · exact ready_of_registered hnew computes (fun t ht => (hspecs t ht).1) hregistered
  · -- the task of the patch itself has it as its only one
    have hmem : [id] ∈ tasks.map fun t => t.endpoints.map Endpoint.patch := by
      rw [hendpoints]
      exact List.mem_map_of_mem (f := Task.patches) (hown id hid)
    obtain ⟨t, ht, hpatches⟩ := List.mem_map.mp hmem
    have hpatch : id ∈ t.endpoints.map Endpoint.patch := by
      rw [hpatches]
      exact List.mem_cons_self
    obtain ⟨e, he, hid⟩ := List.mem_map.mp hpatch
    exact ⟨t, ht, e, he, hid.symm⟩
  · have hcontents := contents_registerAll specs (Assembly.build settings ids)
    rwa [hregistered] at hcontents

end New

/-! ## The run before its first step -/

variable {plan : Plan} {stream : RandomStream}

theorem Plan.side_eq (valid : plan.config.validate = .ok ()) :
    plan.grid.side = plan.config.grid := by
  have hcells : plan.config.grid ≠ 0 := by
    intro hnone
    rw [Config.validate, if_pos hnone] at valid
    cases valid
  exact Nat.max_eq_left (Nat.one_le_iff_ne_zero.mpr hcells)

/-- The settings with which the assembly of an experiment is built. -/
def Plan.settings (plan : Plan) : Settings :=
  { Settings.default with
    capacity := plan.config.particles
    homePatches := plan.grid.cells
    averaged := plan.config.averaged }

/-- The patches that contribute to a frame can be counted. -/
theorem settings_ok (valid : plan.config.validate = .ok ())
    (hword : plan.grid.cells < Grid.wordBound) : plan.config.settings = .ok plan.settings := by
  have hpatches : plan.config.patchCount = .ok plan.grid.cells := by
    rw [Config.patchCount, ← Plan.side_eq valid]
    exact if_pos hword
  rw [Config.settings, hpatches]
  rfl

/-- A run in which nothing has happened yet: all particles wait. -/
def Run.fresh (tasks : List ForceTask) (s : Assembly) (particles : List Particle) : Run where
  assembly := s
  tasks := tasks
  velocities := (particles.map Particle.velocity).toArray
  waiting := some (particles.map fun p => ⟨p.id, p.position⟩)
  frames := []
  rejected := []

/-- **The parts of a start**, none of which fails. -/
theorem start_of_parts {particles : List Particle} {ids : List PatchId} {specs : List Task}
    {tasks : List ForceTask} {s : Assembly} (valid : plan.config.validate = .ok ())
    (hgenerate : Particles.generate plan.particleSpec stream = .ok particles)
    (hword : plan.grid.cells < Grid.wordBound) (hids : plan.grid.patchIds = .ok ids)
    (hspecs : plan.grid.tasks = .ok specs)
    (hcapacity : plan.config.particles * 8 ≤ Failure.addressable)
    (hregistered : specs.mapM ForceTask.register (Assembly.build plan.settings ids) =
      (.ok tasks, s))
    (hroom : plan.config.steps * stepBytes ≤ Failure.addressable) :
    start plan stream = .ok (.fresh tasks s particles) := by
  have hhistory : (Settings.default.history + 1) * 8 ≤ Failure.addressable := by decide
  rw [start, valid, hgenerate, settings_ok valid hword, hids, hspecs]
  dsimp only [bind, Except.bind, pure, Except.pure, lift]
  rw [@build_ok plan.settings hcapacity hhistory ids]
  dsimp only
  rw [perform, hregistered, Failure.ensureAddressable, if_pos hroom]
  rfl

/-- **A start** does not fail once the particles are generated, if the tasks can be numbered. -/
theorem start_staffed {particles : List Particle} (valid : plan.config.validate = .ok ())
    (hfits : plan.grid.Fits) (few : ∀ pairs, plan.grid.neighborPairs = .ok pairs →
      plan.grid.cells + pairs.length < UInt32.size)
    (hgenerate : Particles.generate plan.particleSpec stream = .ok particles)
    (hcapacity : plan.config.particles * 8 ≤ Failure.addressable)
    (hroom : plan.config.steps * stepBytes ≤ Failure.addressable) :
    ∃ tasks s, start plan stream = .ok (.fresh tasks s particles) ∧
      Staffed plan.grid.patches tasks s.patches ∧
      s.contents = (Assembly.build plan.settings plan.grid.patches).contents := by
  obtain ⟨specs, hspecs, computes, hgood, hown⟩ := hfits.tasks_ok few
  obtain ⟨tasks, s, hregistered, hstaffed, hcontents⟩ :=
    staffed_of_new plan.settings hfits.nodup computes hgood hown
  have hword : plan.grid.cells < Grid.wordBound := Nat.lt_trans hfits.cells (by decide)
  exact ⟨tasks, s, start_of_parts valid hgenerate hword hfits.patchIds_eq hspecs hcapacity
    hregistered hroom, hstaffed, hcontents⟩

/-- A new assembly collects frames of all patches. -/
theorem collecting_of_contents (hside : 0 < plan.grid.side) {s : Assembly}
    (hcontents : s.contents = (Assembly.build plan.settings plan.grid.patches).contents) :
    Collecting s.collection plan.grid.cells 1 0 0 := by
  have hframe : s.frame = (Assembly.build plan.settings plan.grid.patches).frame :=
    congrArg Prod.fst hcontents
  have hcells : 0 < plan.grid.cells := Nat.mul_pos (Nat.mul_pos hside hside) hside
  have hcollection :
      s.frame.collection = Collection.new plan.grid.cells Settings.default.history := by
    rw [hframe]
    exact congrArg (Collection.new · Settings.default.history) (if_neg (Nat.ne_of_gt hcells))
  change Collecting s.frame.collection _ _ _ _
  rw [hcollection]
  exact collecting_new hcells _ _

/-- The directory of a new assembly has room for all particles, and none is in it. -/
theorem directory_of_contents {s : Assembly}
    (hcontents : s.contents = (Assembly.build plan.settings plan.grid.patches).contents) :
    s.directory = .allocate plan.config.particles := by
  have hframe : s.frame = (Assembly.build plan.settings plan.grid.patches).frame :=
    congrArg Prod.fst hcontents
  exact congrArg Assembly.directory hframe

theorem ids_of_generate {particles : List Particle}
    (hgenerate : Particles.generate plan.particleSpec stream = .ok particles) :
    particles.map Particle.id = particleIds plan.config.particles :=
  Particles.map_id_generate hgenerate

theorem size_velocities {particles : List Particle}
    (hgenerate : Particles.generate plan.particleSpec stream = .ok particles) :
    (particles.map Particle.velocity).toArray.size = plan.config.particles := by
  rw [List.size_toArray, List.length_map, ← List.length_map Particle.id,
    ids_of_generate hgenerate, length_particleIds]

/-- **The start** of an experiment does not fail once its particles are generated. -/
theorem start_ok (h : Runnable plan) {particles : List Particle}
    (hgenerate : Particles.generate plan.particleSpec stream = .ok particles)
    (hroom : plan.config.steps * stepBytes ≤ Failure.addressable) :
    ∃ ready, start plan stream = .ok ready ∧ Underway plan 1 ready ∧ ready.frames = [] ∧
      ready.rejected = [] := by
  have hcapacity : plan.config.particles * 8 ≤ Failure.addressable :=
    Nat.le_trans (Nat.mul_le_mul_right 8 (Nat.le_of_lt h.particles)) (by decide)
  obtain ⟨tasks, s, hstart, hstaffed, hcontents⟩ :=
    start_staffed h.valid h.fits h.tasks hgenerate hcapacity hroom
  -- no particle is in a patch, and all of them wait
  have hids := ids_of_generate hgenerate
  have hempty := ids_of_contents hcontents
  refine ⟨_, hstart, ⟨hstaffed, ?_, size_velocities hgenerate,
    collecting_of_contents h.fits.side hcontents⟩, rfl, rfl⟩
  refine .waiting rfl rfl ?_ (sound_of_empty (directory_of_contents hcontents) hempty) hempty
  rw [List.map_map, ← hids]
  rfl

end Experiment

end PatchDynamics
