import PatchDynamics.Proofs.Experiment.Endurance
import PatchDynamics.Proofs.Grid.Numbering

/-!
# What validation lets through

Validation looks at the grid, the migration period and the half width one by one. An experiment
combines them: it draws numbers from twice the half width, and it numbers the patches and the tasks
of the grid. This file says which of the configurations that validate can be run:

* `Particles.generate_ok_iff` — the random numbers can be drawn;
* `parts_of_start` — what a start that succeeds has found;
* `grid_of_run` — how large the grid of an experiment is that goes through;
* `Bare` — runs without patches, as there are no numbers left for any;
* `run_ok_iff` — the configurations in question, all of them.
-/

namespace PatchDynamics

/-! ## Random numbers -/

namespace Particles

variable {spec : ParticleSpec} {h : Float}

/-- Whether the random numbers of a specification can be drawn: none is needed, or the ranges have
points and finite lengths. -/
def Drawable (spec : ParticleSpec) : Prop :=
  spec.count = 0 ∨
    drawable spec.halfWidth = true ∧ (spec.maxVelocity > 0 → drawable spec.maxVelocity = true)

theorem drawVector_error (hnot : drawable h ≠ true) (s : RandomStream) :
    drawVector h s = .error (.fault .emptyRange) := by
  have hnumber : drawNumber h s = .error (.fault .emptyRange) := if_neg hnot
  rw [drawVector, hnumber]
  rfl

/-- The first particle fails if a range cannot be drawn from. -/
theorem draw_error (hnot : ¬ (drawable spec.halfWidth = true ∧
    (spec.maxVelocity > 0 → drawable spec.maxVelocity = true))) (number : Nat) (s : RandomStream) :
    draw spec number s = .error (.fault .emptyRange) := by
  by_cases hpositions : drawable spec.halfWidth = true
  · obtain ⟨hmoving, hvelocities⟩ := Classical.not_imp.mp fun hall => hnot ⟨hpositions, hall⟩
    obtain ⟨position, s₁, hposition⟩ := drawVector_ok hpositions s
    rw [draw, hposition]
    dsimp only [bind, Except.bind]
    rw [if_pos hmoving, drawVector_error hvelocities]
  · rw [draw, drawVector_error hpositions]
    rfl

/-- **The generator fails** if numbers are needed that cannot be drawn. -/
theorem generate_error (hroom : spec.count * particleBytes ≤ Failure.addressable)
    (hnot : ¬ Drawable spec) (s : RandomStream) :
    generate spec s = .error (.fault .emptyRange) := by
  obtain ⟨hsome, hranges⟩ := not_or.mp hnot
  obtain ⟨left, hleft⟩ := Nat.exists_eq_succ_of_ne_zero hsome
  have hdraw : drawAll spec spec.count 0 s [] = .error (.fault .emptyRange) := by
    rw [hleft, drawAll.eq_def]
    dsimp only
    rw [draw_error hranges]
  rw [generate, Failure.ensureAddressable, if_pos hroom]
  dsimp only [bind, Except.bind]
  rw [hdraw]

/-- **The generator succeeds** exactly if its numbers can be drawn. -/
theorem generate_ok_iff (hroom : spec.count * particleBytes ≤ Failure.addressable)
    (s : RandomStream) : (∃ particles, generate spec s = .ok particles) ↔ Drawable spec := by
  constructor
  · rintro ⟨particles, hparticles⟩
    by_contra hnot
    cases (generate_error hroom hnot s).symm.trans hparticles
  · rintro (hnone | ⟨hpositions, hvelocities⟩)
    · refine ⟨atRest [], ?_⟩
      rw [generate, Failure.ensureAddressable, if_pos hroom]
      dsimp only [bind, Except.bind]
      rw [hnone]
      rfl
    · exact generate_ok hroom hpositions hvelocities s

end Particles

namespace Experiment

variable {plan : Plan} {stream : RandomStream} {run : Run} {k : Nat}

/-! ## What a start has found -/

theorem ok_of_lift {α : Type} {r : Except Failure α} {a : α} (h : lift r = .ok a) : r = .ok a := by
  cases r with
  | ok b => exact congrArg Except.ok (Except.ok.inj h)
  | error e => cases h

theorem ok_of_perform {α : Type} {s s' : Assembly} {action : Action Assembly α} {a : α}
    (h : perform s action = .ok (a, s')) : action s = (.ok a, s') := by
  rw [perform] at h
  split at h
  · next hcall =>
    cases h
    exact hcall
  · cases h

theorem settings_of_ok (valid : plan.config.validate = .ok ()) {settings : Settings}
    (h : plan.config.settings = .ok settings) :
    settings = plan.settings ∧ plan.grid.cells < Grid.wordBound := by
  obtain ⟨homes, hhomes, hsettings⟩ := exists_ok_of_bind h
  have hword : plan.grid.cells < Grid.wordBound := by
    rw [Config.patchCount, ← Plan.side_eq valid, Grid.checked] at hhomes
    split at hhomes
    · next hlt => exact hlt
    · cases hhomes
  exact ⟨Except.ok.inj (h.symm.trans (settings_ok valid hword)), hword⟩

/-- **A start that succeeds** has generated particles, and found all patches of all tasks. -/
theorem parts_of_start (valid : plan.config.validate = .ok ()) {ready : Run}
    (h : start plan stream = .ok ready) :
    ∃ particles ids specs tasks s,
      Particles.generate plan.particleSpec stream = .ok particles ∧
      plan.grid.cells < Grid.wordBound ∧ plan.grid.patchIds = .ok ids ∧
      plan.grid.tasks = .ok specs ∧
      specs.mapM ForceTask.register (Assembly.build plan.settings ids) = (.ok tasks, s) ∧
      ready = .fresh tasks s particles := by
  rw [start, valid] at h
  obtain ⟨particles, hgenerate, h⟩ := exists_ok_of_bind h
  obtain ⟨settings, hsettings, h⟩ := exists_ok_of_bind h
  obtain ⟨ids, hids, h⟩ := exists_ok_of_bind h
  obtain ⟨specs, hspecs, h⟩ := exists_ok_of_bind h
  obtain ⟨assembly, hassembly, h⟩ := exists_ok_of_bind h
  obtain ⟨⟨tasks, s⟩, hregistered, h⟩ := exists_ok_of_bind h
  obtain ⟨-, -, h⟩ := exists_ok_of_bind h
  have hready : ready = .fresh tasks s particles := (Except.ok.inj h).symm
  obtain ⟨rfl, hword⟩ := settings_of_ok valid (ok_of_lift hsettings)
  obtain ⟨-, -, hassembly⟩ := exists_ok_of_bind (ok_of_lift hassembly)
  obtain ⟨-, -, hassembly⟩ := exists_ok_of_bind hassembly
  cases hassembly
  exact ⟨particles, ids, specs, tasks, s, ok_of_lift hgenerate, hword, ok_of_lift hids,
    ok_of_lift hspecs, ok_of_perform hregistered, hready⟩

/-! ## Experiments without patches -/

/-- A run without patches, in which nobody waits for one. -/
structure Bare (run : Run) : Prop where
  /-- there are no tasks -/
  tasks : run.tasks = []
  /-- there are no patches -/
  patches : run.assembly.patches = []
  /-- nobody waits -/
  waiting : ∀ atoms, run.waiting = some atoms → atoms = []

/-- Nobody is sent anywhere. -/
theorem assign_nil (grid : Grid) {s : Assembly} (hnone : s.patches = []) :
    assign grid s [] = .ok (⟨0, 0⟩, s) := by
  obtain ⟨settings, directory, patches, collection, signals⟩ := s
  obtain rfl : patches = [] := hnone
  rfl

/-- Particles have nowhere to go. -/
theorem assign_ne_ok (grid : Grid) {s : Assembly} (hnone : s.patches = []) {atoms : List Atom}
    (hsome : atoms ≠ []) (result : Migration × Assembly) : assign grid s atoms ≠ .ok result := by
  intro h
  obtain ⟨⟨targeted, m⟩, htargets, -⟩ := exists_ok_of_bind h
  obtain ⟨a, rest, rfl⟩ := List.exists_cons_of_ne_nil hsome
  obtain ⟨target, -, htargets⟩ := exists_ok_of_bind htargets
  obtain ⟨m', -, htargets⟩ := exists_ok_of_bind htargets
  rw [hnone] at htargets
  dsimp only [List.length_nil] at htargets
  rw [if_pos (Nat.zero_le _)] at htargets
  cases htargets

namespace Bare

/-- The migration phase does nothing. -/
theorem migrate (h : Bare run) (plan : Plan) (k : Nat) :
    ∃ migration placed, Experiment.migrate plan run k = .ok (migration, placed) ∧ Bare placed := by
  cases hwaiting : run.waiting with
  | some atoms =>
    obtain rfl := h.waiting atoms hwaiting
    refine ⟨some ⟨0, 0⟩, { run with waiting := none }, ?_, h.tasks, h.patches, nofun⟩
    rw [Experiment.migrate, hwaiting]
    dsimp only
    rw [assign_nil _ h.patches]
    rfl
  | none =>
    by_cases hdue : (k - 1) % plan.config.migrationPeriod = 0
    · refine ⟨some ⟨0, 0⟩, run, ?_, h⟩
      rw [Experiment.migrate, hwaiting]
      dsimp only
      rw [if_pos hdue, h.patches, List.flatMap_nil, assign_nil _ h.patches, ← hwaiting]
      rfl
    · refine ⟨none, run, ?_, h⟩
      rw [Experiment.migrate, hwaiting]
      exact if_neg hdue

/-- Nothing is collected. -/
theorem output (h : Bare run) : Experiment.output plan run k = run := by
  rw [Experiment.output, h.patches]
  split <;> rfl

/-- **A step** does not fail. -/
theorem advance (h : Bare run) (horder : ∀ step tasks, (plan.order step tasks).Perm tasks) :
    ∃ metrics after, Experiment.advance plan run k = .ok (metrics, after) ∧ Bare after := by
  obtain ⟨migration, placed, hmigrate, hplaced⟩ := h.migrate plan k
  have hpublish : ∃ s₁, publish migration.isSome placed.assembly = .ok s₁ ∧ s₁.patches = [] := by
    rw [publish, hplaced.patches]
    exact ⟨_, rfl, rfl⟩
  obtain ⟨s₁, hpublish, hnone⟩ := hpublish
  have hruns : runTasks plan.law plan.grid (plan.order k placed.tasks) 0 s₁ = .ok (0, s₁) := by
    have hempty := horder k placed.tasks
    rw [hplaced.tasks] at hempty ⊢
    rw [List.perm_nil.mp hempty]
    rfl
  have hawait : awaitBoxes k s₁ = .ok s₁.takeSignals.2 := by
    rw [awaitBoxes, Assembly.takeSignals]
    dsimp only
    rw [hnone]
    exact if_neg (Nat.not_lt_zero _)
  have hmove : moveAll plan s₁.takeSignals.2.patches ⟨placed.velocities, 0⟩ =
      .ok ([], ⟨placed.velocities, 0⟩) := by
    rw [Assembly.takeSignals]
    dsimp only
    rw [hnone]
    rfl
  obtain ⟨metrics, hadvance, -, -⟩ := advance_of_phases hmigrate hpublish hruns hawait hmove
  have hafter : Bare { placed with assembly := { s₁.takeSignals.2 with patches := [] } } :=
    ⟨hplaced.tasks, rfl, hplaced.waiting⟩
  rw [hafter.output] at hadvance
  exact ⟨metrics, _, hadvance, hafter⟩

/-- **Any number of steps** do not fail, and there is nothing to give back. -/
theorem advanceAll (horder : ∀ step tasks, (plan.order step tasks).Perm tasks) (left : Nat)
    (h : Bare run) (done : List StepMetrics) :
    ∃ steps after, Experiment.advanceAll plan left k done run = .ok (steps, after) ∧
      Bare after := by
  induction left generalizing k run done with
  | zero => exact ⟨_, run, rfl, h⟩
  | succ left ih =>
    obtain ⟨metrics, next, hadvance, hnext⟩ := h.advance (k := k) horder
    obtain ⟨steps, after, hrest, hafter⟩ := ih (k := k + 1) hnext (metrics :: done)
    refine ⟨steps, after, ?_, hafter⟩
    rw [Experiment.advanceAll, hadvance]
    exact hrest

end Bare

/-- A run that starts without patches and particles. -/
theorem bare_fresh {s : Assembly} (hnone : s.patches = []) : Bare (.fresh [] s []) :=
  ⟨rfl, hnone, fun _ hwaiting => (Option.some.inj hwaiting).symm⟩

/-- There is nothing to give back. -/
theorem finish_of_none (plan : Plan) (hnone : run.tasks = []) (steps : List StepMetrics) :
    ∃ report, finish plan steps run = .ok report := by
  rw [finish, hnone]
  exact ⟨_, rfl⟩

/-- A step fails if there are particles, but no patches to send them to. -/
theorem advance_ne_ok (hnone : run.assembly.patches = []) {atoms : List Atom}
    (hwaiting : run.waiting = some atoms) (hsome : atoms ≠ []) (result : StepMetrics × Run) :
    advance plan run k ≠ .ok result := by
  intro h
  obtain ⟨⟨migration, placed⟩, hmigrate, -⟩ := exists_ok_of_bind h
  rw [migrate, hwaiting] at hmigrate
  obtain ⟨assigned, hassign, -⟩ := exists_ok_of_bind hmigrate
  exact assign_ne_ok plan.grid hnone hsome assigned hassign

/-! ## Which grids can be used -/

/-- Whether the cells of a grid can be counted, but their count is a multiple of that of the
numbers, so that no number is left for a patch. -/
def Config.Patchless (c : Config) : Prop := c.grid ^ 3 < 2 ^ 64 ∧ 2 ^ 32 ∣ c.grid ^ 3

theorem patchless_iff (valid : plan.config.validate = .ok ()) :
    plan.config.Patchless ↔ plan.grid.cells < Grid.wordBound ∧ plan.grid.numbered = 0 := by
  rw [Config.Patchless, Grid.numbered, Grid.cells_eq_pow, Plan.side_eq valid,
    ← Nat.dvd_iff_mod_eq_zero]
  rfl

/-- Without patches there are no tasks, and an experiment starts with none. -/
theorem start_of_patchless (valid : plan.config.validate = .ok ())
    (hpatchless : plan.config.Patchless) {particles : List Particle}
    (hgenerate : Particles.generate plan.particleSpec stream = .ok particles)
    (hcapacity : plan.config.particles * 8 ≤ Failure.addressable)
    (hroom : plan.config.steps * stepBytes ≤ Failure.addressable) :
    start plan stream = .ok (.fresh [] (Assembly.build plan.settings []) particles) := by
  obtain ⟨hword, hnone⟩ := (patchless_iff valid).mp hpatchless
  obtain ⟨hids, hspecs⟩ := Grid.tasks_of_none hnone hword
  exact start_of_parts valid hgenerate hword hids hspecs hcapacity rfl hroom

/-- **Without patches** an experiment goes through if it has no particles or no steps. -/
theorem run_ok_of_patchless (valid : plan.config.validate = .ok ())
    (hpatchless : plan.config.Patchless)
    (horder : ∀ step tasks, (plan.order step tasks).Perm tasks) {particles : List Particle}
    (hgenerate : Particles.generate plan.particleSpec stream = .ok particles)
    (hcapacity : plan.config.particles * 8 ≤ Failure.addressable)
    (hroom : plan.config.steps * stepBytes ≤ Failure.addressable)
    (hidle : plan.config.particles = 0 ∨ plan.config.steps = 0) :
    ∃ report, Experiment.run plan stream = .ok report := by
  have hstart := start_of_patchless valid hpatchless hgenerate hcapacity hroom
  rcases hidle with hnobody | hnever
  · have hnone : particles = [] := by
      have hlength := congrArg List.length (ids_of_generate hgenerate)
      rw [List.length_map, length_particleIds, hnobody] at hlength
      exact List.eq_nil_of_length_eq_zero hlength
    rw [hnone] at hstart
    have hbare : Bare (.fresh [] (Assembly.build plan.settings []) []) := bare_fresh rfl
    obtain ⟨steps, after, hadvance, hafter⟩ := hbare.advanceAll (k := 1) horder plan.config.steps []
    obtain ⟨report, hfinish⟩ := finish_of_none plan hafter.tasks steps
    exact ⟨report, run_of_parts hstart hadvance hfinish⟩
  · let ready : Run := .fresh [] (Assembly.build plan.settings []) particles
    have hadvance : advanceAll plan plan.config.steps 1 [] ready = .ok ([], ready) := by
      rw [hnever]
      rfl
    obtain ⟨report, hfinish⟩ := finish_of_none plan (show ready.tasks = [] from rfl) []
    exact ⟨report, run_of_parts hstart hadvance hfinish⟩

/-- Up to 674 cells along each axis, all tasks have numbers. -/
theorem fits_of_small (valid : plan.config.validate = .ok ()) (hsmall : plan.config.grid ≤ 674) :
    plan.grid.Fits ∧ ∀ pairs, plan.grid.neighborPairs = .ok pairs →
      plan.grid.cells + pairs.length < UInt32.size := by
  rw [← Plan.side_eq valid] at hsmall
  have hpow : plan.grid.side ^ 3 ≤ 674 ^ 3 := Nat.pow_le_pow_left hsmall 3
  have hfits : plan.grid.Fits := .of_pow plan.side_pos (Nat.le_trans hpow (by decide))
  obtain ⟨pairs, hpairs, hperm⟩ := hfits.neighborPairs_perm
  refine ⟨hfits, fun pairs' hpairs' => ?_⟩
  obtain rfl := Except.ok.inj (hpairs.symm.trans hpairs')
  rw [hperm.length_eq]
  exact hfits.few_iff.mpr hsmall

/-- **A count overflows** that is not a 64-bit word, and so does the number of a task where only the
patches have numbers. -/
theorem start_overflow (valid : plan.config.validate = .ok ()) {particles : List Particle}
    (hgenerate : Particles.generate plan.particleSpec stream = .ok particles)
    (hlarge : 674 < plan.config.grid ∧ plan.config.grid ^ 3 < 2 ^ 32 ∨
      2 ^ 64 ≤ plan.config.grid ^ 3) :
    start plan stream = .error (.failed (.fault .overflow)) := by
  have hcells : plan.grid.cells = plan.config.grid ^ 3 := by
    rw [Grid.cells_eq_pow, Plan.side_eq valid]
  rw [← hcells, ← Plan.side_eq valid] at hlarge
  rcases hlarge with ⟨hside, hnumbers⟩ | hword
  · have hfits : plan.grid.Fits := ⟨Nat.zero_lt_of_lt hside, hnumbers⟩
    have hmany : UInt32.size ≤ plan.grid.cells + plan.grid.touching.length :=
      Nat.not_lt.mp fun few => absurd (hfits.few_iff.mp few) (Nat.not_le_of_lt hside)
    have hsettings := settings_ok valid (Nat.lt_trans hfits.cells (by decide))
    rw [start, valid, hgenerate, hsettings, hfits.patchIds_eq, hfits.tasks_overflow hmany]
    rfl
  · have hsettings : plan.config.settings = .error (.fault .overflow) := by
      rw [Config.settings, Config.patchCount, ← Plan.side_eq valid]
      rw [show Grid.checked (plan.grid.side * plan.grid.side * plan.grid.side) =
        .error (.fault .overflow) from if_neg (Nat.not_lt_of_le hword)]
      rfl
    rw [start, valid, hgenerate, hsettings]
    rfl

/-- **The grid of an experiment that goes through** has numbers for all its tasks, or no patch. -/
theorem grid_of_run (valid : plan.config.validate = .ok ()) {report : Report}
    (h : Experiment.run plan stream = .ok report) :
    plan.config.grid ≤ 674 ∨
      plan.config.Patchless ∧ (plan.config.particles = 0 ∨ plan.config.steps = 0) := by
  obtain ⟨ready, hstart, h⟩ := exists_ok_of_bind h
  obtain ⟨particles, ids, specs, tasks, s, hgenerate, hword, hids, hspecs, hregistered, rfl⟩ :=
    parts_of_start valid hstart
  by_cases hcells : plan.grid.cells < UInt32.size
  · have hfits : plan.grid.Fits := ⟨plan.side_pos, hcells⟩
    left
    rw [← Plan.side_eq valid]
    exact hfits.few_iff.mp (hfits.tasks_ok_iff.mp ⟨specs, hspecs⟩)
  by_cases hnone : plan.grid.numbered = 0
  · refine .inr ⟨(patchless_iff valid).mpr ⟨hword, hnone⟩, ?_⟩
    by_contra hbusy
    obtain ⟨hsome, hever⟩ := not_or.mp hbusy
    obtain ⟨left, hleft⟩ := Nat.exists_eq_succ_of_ne_zero hever
    obtain ⟨hids', hspecs'⟩ := Grid.tasks_of_none hnone hword
    obtain rfl := Except.ok.inj (hids'.symm.trans hids)
    obtain rfl := Except.ok.inj (hspecs'.symm.trans hspecs)
    cases hregistered
    have hwaiting : particles.map (fun p => (⟨p.id, p.position⟩ : Atom)) ≠ [] := by
      intro hempty
      have hlength := congrArg List.length (ids_of_generate hgenerate)
      rw [List.length_map, length_particleIds, List.map_eq_nil_iff.mp hempty] at hlength
      exact hsome hlength.symm
    -- the first step has nowhere to send them
    obtain ⟨⟨steps, after⟩, hadvance, -⟩ := exists_ok_of_bind h
    rw [hleft, advanceAll] at hadvance
    split at hadvance
    · cases hadvance
    · next hfirst => exact absurd hfirst (advance_ne_ok rfl rfl hwaiting _)
  · -- a task has a patch that was not there when it was registered
    obtain ⟨t, ht, hbeyond⟩ := Grid.exists_task_beyond (Nat.not_lt.mp hcells) hnone hspecs
    have hmem := Assembly.mem_of_registerAll hregistered ht hbeyond
    rw [Assembly.patchIds, new_named] at hmem
    exact absurd hmem (Grid.beyond_not_mem hids)

/-! ## All of them -/

/-- An experiment ends with what its start fails with. -/
theorem run_of_start_error {e : Error} (h : start plan stream = .error e) :
    Experiment.run plan stream = .error e := by
  rw [Experiment.run, h]
  rfl

/-- **Which configurations that validate can be run.** Take one whose lists can be addressed, any
law of force and any stream of random numbers, and let the tasks of each step run in whatever order.
The experiment goes through exactly if its random numbers can be drawn and its grid has a number for
each task, which are grids with up to 674 cells along each axis. Apart from these there are only
grids without patches, with which an experiment goes through that has no particles or no steps.

Where random numbers cannot be drawn, the generator stops the run. If they can, an overflow does so
where the cells cannot be counted, or where the patches can be numbered and the tasks cannot. -/
theorem run_ok_iff (valid : plan.config.validate = .ok ())
    (horder : ∀ step tasks, (plan.order step tasks).Perm tasks)
    (hparticles : plan.config.particles * Particles.particleBytes ≤ Failure.addressable)
    (hsteps : plan.config.steps * stepBytes ≤ Failure.addressable) (stream : RandomStream) :
    ((∃ report, Experiment.run plan stream = .ok report) ↔
      Particles.Drawable plan.particleSpec ∧
        (plan.config.grid ≤ 674 ∨
          plan.config.Patchless ∧ (plan.config.particles = 0 ∨ plan.config.steps = 0))) ∧
    (¬ Particles.Drawable plan.particleSpec →
      Experiment.run plan stream = .error (.failed (.fault .emptyRange))) ∧
    (Particles.Drawable plan.particleSpec →
      674 < plan.config.grid ∧ plan.config.grid ^ 3 < 2 ^ 32 ∨ 2 ^ 64 ≤ plan.config.grid ^ 3 →
      Experiment.run plan stream = .error (.failed (.fault .overflow))) := by
  have hcount : plan.particleSpec.count = plan.config.particles := rfl
  have hroom : plan.particleSpec.count * Particles.particleBytes ≤ Failure.addressable := by
    rw [hcount]
    exact hparticles
  have hdrawable := Particles.generate_ok_iff hroom stream
  have hbytes : 8 ≤ Particles.particleBytes := by decide
  have hcapacity : plan.config.particles * 8 ≤ Failure.addressable :=
    Nat.le_trans (Nat.mul_le_mul_left _ hbytes) hparticles
  refine ⟨⟨?_, ?_⟩, fun hnot => ?_, fun hdraw hlarge => ?_⟩
  · rintro ⟨report, hrun⟩
    refine ⟨hdrawable.mp ?_, grid_of_run valid hrun⟩
    obtain ⟨ready, hstart, -⟩ := exists_ok_of_bind hrun
    obtain ⟨particles, -, -, -, -, hgenerate, -⟩ := parts_of_start valid hstart
    exact ⟨particles, hgenerate⟩
  · rintro ⟨hdraw, hgrid⟩
    obtain ⟨particles, hgenerate⟩ := hdrawable.mpr hdraw
    rcases hgrid with hsmall | ⟨hpatchless, hidle⟩
    · obtain ⟨hfits, few⟩ := fits_of_small valid hsmall
      exact run_ok_of_fits valid hfits few horder hgenerate hcapacity hsteps
    · exact run_ok_of_patchless valid hpatchless horder hgenerate hcapacity hsteps hidle
  · have hgenerate := Particles.generate_error hroom hnot stream
    refine run_of_start_error ?_
    rw [start, valid, hgenerate]
    rfl
  · obtain ⟨particles, hgenerate⟩ := hdrawable.mpr hdraw
    exact run_of_start_error (start_overflow valid hgenerate hlarge)

/-- The largest grid whose tasks have numbers, with more particles than can be told apart. -/
def crowded : Config :=
  { Config.default with
    grid := 674
    particles := 5000000000
    steps := 3 }

/-- All particles of a crowded experiment are drawn, and it goes through. -/
theorem run_ok_iff_crowded :
    crowded.validate = .ok () ∧ Particles.Drawable (Plan.ofConfig crowded).particleSpec ∧
      ∃ report, Experiment.run (.ofConfig crowded) (.ofSeed 7) = .ok report := by
  have valid : crowded.validate = .ok () := by
    rw [Config.validate, if_neg (by decide), if_neg (by decide), if_neg (by decide)]
  have hdrawable : Particles.Drawable (Plan.ofConfig crowded).particleSpec :=
    .inr ⟨by decide, fun _ => by decide⟩
  have hiff := @run_ok_iff (.ofConfig crowded) valid (fun _ tasks => .refl tasks) (by decide)
    (by decide) (.ofSeed 7)
  exact ⟨valid, hdrawable, hiff.1.mpr ⟨hdrawable, .inl (by decide)⟩⟩

/-- A cube so large that its width is not finite, with one particle. -/
def overwide : Config :=
  { Config.default with
    grid := 1
    particles := 1
    steps := 0
    halfWidth := 1e308 }

/-- **Validation lets a configuration through that cannot be run**: the first particle stops the
run. -/
theorem validated_run_fails :
    overwide.validate = .ok () ∧
      Experiment.run (.ofConfig overwide) (.ofSeed 1) = .error (.failed (.fault .emptyRange)) := by
  have valid : overwide.validate = .ok () := by
    rw [Config.validate, if_neg (by decide), if_neg (by decide), if_neg (by decide +kernel)]
  have hnot : ¬ Particles.Drawable (Plan.ofConfig overwide).particleSpec := by
    rintro (hnone | ⟨hpositions, -⟩)
    · exact absurd hnone (by decide)
    · exact absurd hpositions (by decide +kernel)
  have hgenerate := Particles.generate_error (by decide) hnot (.ofSeed 1)
  refine ⟨valid, run_of_start_error ?_⟩
  rw [start, show (Plan.ofConfig overwide).config.validate = .ok () from valid, hgenerate]
  rfl

end Experiment

end PatchDynamics
