import PatchDynamics.Proofs.Experiment.Start

/-!
# Whole experiments

A run is a start, its steps and an end. No particle is lost or doubled on the way, no slice is
refused, and the report says of each step what happened in it:

* `Reaches` — the runs before the steps, and `Conserves`, what is to hold of a step;
* `conserves_of_underway` — a step between steps conserves particles;
* `advanceAll_ok` — so do all steps in a row;
* `finish_of_staffed`, `finish_ok` — tasks give back what they hold, and the directory has all
  particles;
* `run_conserves` — the experiment as a whole.
-/

namespace PatchDynamics.Experiment

variable {plan : Plan} {stream : RandomStream} {run : Run} {k : Nat}

/-! ## Steps -/

/-- The run before step `k` of an experiment. -/
inductive Reaches (plan : Plan) (stream : RandomStream) : Nat → Run → Prop where
  /-- the first step follows the start -/
  | start {ready : Run} (started : start plan stream = .ok ready) : Reaches plan stream 1 ready
  /-- each other one follows the one before -/
  | step {k : Nat} {run after : Run} {metrics : StepMetrics} (before : Reaches plan stream k run)
    (advanced : advance plan run k = .ok (metrics, after)) : Reaches plan stream (k + 1) after

/-- What step `k` of an experiment measures in a run, and where it leaves the particles before their
forces are computed. -/
structure Conserves (plan : Plan) (run : Run) (k : Nat) (metrics : StepMetrics) : Prop where
  /-- the step is numbered -/
  numbered : metrics.step = k
  /-- in the first step, and in no other one, all particles are in no patch -/
  unassigned : metrics.unassigned = if k = 1 then plan.config.particles else 0
  /-- after each migration period, particles move whose positions are in another patch than the one
  that lists them -/
  migrations : metrics.migrations =
    if k ≠ 1 ∧ (k - 1) % plan.config.migrationPeriod = 0 then
      strays plan.grid run.assembly.patches
    else 0
  /-- after the migration phase each particle is listed once, and found where it is listed -/
  housed : ∃ migration migrated, migrate plan run k = .ok (migration, migrated) ∧
    Housed plan.config.particles migrated.assembly
  /-- the step does not fail -/
  advanced : ∃ after, advance plan run k = .ok (metrics, after)

/-- **A step** conserves particles, and the next one does so, too. -/
theorem conserves_of_underway (hplan : Runnable plan) (hk : 1 ≤ k) (h : Underway plan k run) :
    ∃ metrics after, advance plan run k = .ok (metrics, after) ∧ Conserves plan run k metrics ∧
      Underway plan (k + 1) after ∧
      after.frames = run.frames ++ framesOf plan.config plan.config.particles k ∧
      after.rejected = run.rejected := by
  obtain ⟨metrics, after, hadvance, hstep, hcounts, hafter, hframes, hrejected⟩ :=
    advance_ok hplan hk h
  obtain ⟨migration, d, patches, hmigrate, -, hsettled, -⟩ := migrate_ok hplan h
  refine ⟨metrics, after, hadvance, ⟨hstep, ?_, ?_, ?_, ⟨after, hadvance⟩⟩, hafter, hframes,
    hrejected⟩
  · exact congrArg Migration.unassigned hcounts
  · exact congrArg Migration.migrations hcounts
  · exact ⟨migration, _, hmigrate, hsettled.housed⟩

/-- **All steps in a row** conserve particles. -/
theorem advanceAll_ok (hplan : Runnable plan) (left : Nat) (hk : 1 ≤ k)
    (hreaches : Reaches plan stream k run) (h : Underway plan k run) (done : List StepMetrics) :
    ∃ steps after, advanceAll plan left k done run = .ok (done.reverse ++ steps, after) ∧
      List.Forall₂ (fun k metrics => ∃ before, Reaches plan stream k before ∧
        Conserves plan before k metrics) (List.range' k left) steps ∧
      Underway plan (k + left) after ∧
      after.frames = run.frames ++
        (List.range' k left).flatMap (framesOf plan.config plan.config.particles) ∧
      after.rejected = run.rejected := by
  induction left generalizing k run done with
  | zero =>
    refine ⟨[], run, ?_, .nil, h, ?_, rfl⟩
    · rw [advanceAll, List.append_nil]
    · rw [List.range'_zero, List.flatMap_nil, List.append_nil]
  | succ left ih =>
    obtain ⟨metrics, next, hadvance, hconserves, hnext, hframes, hrejected⟩ :=
      conserves_of_underway hplan hk h
    obtain ⟨steps, after, hrest, hall, hafter, hframes', hrejected'⟩ :=
      ih (Nat.le_succ_of_le hk) (.step hreaches hadvance) hnext (metrics :: done)
    refine ⟨metrics :: steps, after, ?_, ?_, ?_, ?_, hrejected'.trans hrejected⟩
    · rw [advanceAll, hadvance]
      dsimp only
      rw [hrest, List.reverse_cons, List.append_assoc, List.singleton_append]
    · exact .cons ⟨run, hreaches, hconserves⟩ hall
    · rw [← Nat.succ_add_eq_add_succ]
      exact hafter
    · rw [hframes', hframes, List.range'_succ, List.flatMap_cons, List.append_assoc]

/-! ## The end -/

/-- All handles can be given back, and the directory does not change meanwhile. -/
theorem finish_of_staffed (h : Staffed plan.grid.patches run.tasks run.assembly.patches)
    (steps : List StepMetrics) :
    finish plan steps run = .ok {
      config := plan.config
      steps := steps
      frames := run.frames
      rejected := run.rejected
      census := run.assembly.directory.census } := by
  have hpatches : ∀ t ∈ run.tasks, ∀ e ∈ t.endpoints, e.patch ∈ plan.grid.patches := by
    intro t ht e he
    obtain ⟨p, hp, hid, -⟩ := h.ready.enrolled.present e (List.mem_flatMap.mpr ⟨t, ht, he⟩)
    rw [← hid, ← h.ready.enrolled.named]
    exact List.mem_map_of_mem hp
  obtain ⟨s, hunregistered⟩ := h.holding.unregisterAll hpatches
  have hcontents := contents_unregisterAll run.tasks run.assembly
  rw [hunregistered] at hcontents
  have hframe : s.frame = run.assembly.frame := congrArg Prod.fst hcontents
  have hdirectory : s.frame.directory = run.assembly.directory := by
    rw [hframe]
    rfl
  rw [finish, perform, hunregistered, ← hdirectory]
  rfl

/-- **The end** of an experiment: every particle is counted. -/
theorem finish_ok (h : Underway plan k run) (hlater : k ≠ 1) (steps : List StepMetrics) :
    finish plan steps run = .ok {
      config := plan.config
      steps := steps
      frames := run.frames
      rejected := run.rejected
      census := ⟨plan.config.particles, plan.config.particles, 0, false⟩ } := by
  have hsettled : Settled plan.config.particles run.assembly := by
    rcases h.population with ⟨rfl, -, -, -, -⟩ | ⟨-, -, hsettled⟩
    · exact absurd rfl hlater
    · exact hsettled
  rw [finish_of_staffed h.staffed, hsettled.census_eq]

/-- **The experiment as a whole.** Take a configuration that validates, with at least one step,
fewer particles than there are numbers, and a grid whose tasks can be numbered, and suppose that its
particles can be generated and that the measurements of all steps can be kept. Then the run does not
fail, whatever the law of force is and in whatever order tasks run. The report has one entry for
each step, frames of both quantities with all particles for each step that ends an output period,
and no refused slice. In each step particles are conserved, and at the end the directory has all of
them. -/
theorem run_conserves (h : Runnable plan) (hsteps : 1 ≤ plan.config.steps)
    (hgenerates : ∃ particles, Particles.generate plan.particleSpec stream = .ok particles)
    (hroom : plan.config.steps * stepBytes ≤ Failure.addressable) :
    ∃ report, Experiment.run plan stream = .ok report ∧
      report.steps.length = plan.config.steps ∧
      List.Forall₂ (fun k metrics => ∃ before, Reaches plan stream k before ∧
        Conserves plan before k metrics) (List.range' 1 plan.config.steps) report.steps ∧
      report.frames = (List.range' 1 plan.config.steps).flatMap
        (framesOf plan.config plan.config.particles) ∧
      report.rejected = [] ∧
      report.census = ⟨plan.config.particles, plan.config.particles, 0, false⟩ := by
  obtain ⟨particles, hparticles⟩ := hgenerates
  obtain ⟨ready, hstart, hready, hframes, hrejected⟩ := start_ok h hparticles hroom
  obtain ⟨steps, after, hadvance, hall, hafter, hframes', hrejected'⟩ :=
    advanceAll_ok h plan.config.steps (Nat.le_refl 1) (.start hstart) hready []
  rw [hframes] at hframes'
  have hfinish := finish_ok hafter (Nat.ne_of_gt (Nat.lt_add_of_pos_right hsteps)) steps
  have hrun : Experiment.run plan stream = .ok {
      config := plan.config
      steps := steps
      frames := after.frames
      rejected := after.rejected
      census := ⟨plan.config.particles, plan.config.particles, 0, false⟩ } := by
    rw [Experiment.run, hstart]
    dsimp only [bind, Except.bind]
    rw [hadvance]
    exact hfinish
  refine ⟨_, hrun, ?_, hall, hframes', hrejected'.trans hrejected, rfl⟩
  rw [← hall.length_eq, List.length_range']

/-- Three steps of two particles in eight patches, the tasks in reverse order. -/
theorem run_conserves_reversed :
    let plan : Plan := {
      config := { Config.default with
        particles := 2
        steps := 3
        migrationPeriod := 2
        outputPeriod := 2 }
      law := SoftSpring.law ⟨50, 1⟩
      order := fun _ tasks => tasks.reverse }
    ∃ report, Experiment.run plan (.ofSeed 7) = .ok report ∧
      report.steps.map StepMetrics.unassigned = [2, 0, 0] ∧
      report.frames = [⟨"positions", 2, 2⟩, ⟨"velocities", 2, 2⟩] ∧ report.rejected = [] ∧
      report.census = ⟨2, 2, 0, false⟩ := by
  intro plan
  have hfits : plan.grid.Fits := ⟨by decide, by decide⟩
  have hvalid : plan.config.validate = .ok () := by
    rw [Config.validate, if_neg (by decide), if_neg (by decide), if_neg (by decide)]
  have hplan : Runnable plan := by
    refine ⟨hvalid, by decide, hfits.cells, fun pairs hpairs => ?_,
      fun _ tasks => List.reverse_perm tasks⟩
    obtain ⟨pairs', hpairs', hfew, -⟩ := hfits.neighborPairs_ok
    obtain rfl := Except.ok.inj (hpairs.symm.trans hpairs')
    exact Nat.lt_of_le_of_lt (Nat.add_le_add_left hfew _) (by decide)
  have hgenerates := @Particles.generate_ok plan.particleSpec (by decide) (by decide)
    (fun _ => by decide) (.ofSeed 7)
  obtain ⟨report, hrun, -, hall, hframes, hrejected, hcensus⟩ :=
    run_conserves hplan (by decide) hgenerates (by decide)
  have hunassigned : List.Forall₂ (· = ·) ((List.range' 1 3).map fun k => if k = 1 then 2 else 0)
      (report.steps.map StepMetrics.unassigned) := by
    rw [List.forall₂_map_left_iff, List.forall₂_map_right_iff]
    refine hall.imp fun k metrics hstep => ?_
    obtain ⟨run, -, hconserves⟩ := hstep
    exact hconserves.unassigned.symm
  rw [List.forall₂_eq_eq_eq] at hunassigned
  exact ⟨report, hrun, hunassigned.symm, hframes.trans (by decide), hrejected, hcensus⟩

end PatchDynamics.Experiment
