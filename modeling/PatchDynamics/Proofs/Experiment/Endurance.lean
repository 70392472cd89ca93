import PatchDynamics.Proofs.Experiment.Conservation

/-!
# Experiments that go through

That particles are conserved needs a number for each of them. That no step fails needs less: every
number that is used has a place in the directory and a velocity, even if several particles share it.
So an experiment goes through with any number of particles:

* `replaceEach_ok_of_fits`, `assign_ok_of_fits` — a migration succeeds if all numbers have places;
* `Sustained` — what holds of a run before each step;
* `Sustained.advance` — a step succeeds, and the next one may follow;
* `run_ok_of_fits` — the experiment as a whole.
-/

namespace PatchDynamics.Experiment

/-! ## Migration -/

section Assign

variable {grid : Grid} {s : Assembly} {n : Nat}

/-- **All patches take over their lists**, one after the other, if all particles have places. -/
theorem replaceEach_ok_of_fits {l : List Patch} (lists : PatchId → List Atom)
    (hclosed : ∀ p ∈ l, p.openBoxes = 0)
    (hreserved : ∀ p ∈ l, p.id ≠ PatchId.reserved)
    (hlisted : ∀ p ∈ l, ∀ id ∈ p.ids, id.toNat < n)
    (hlists : ∀ id, ∀ a ∈ lists id, a.id.toNat < n) {d : Directory} (hd : d.capacity = n) :
    ∃ d', replaceEach d l (l.map fun p => lists p.id) =
        .ok (d', l.map fun p => p.replaced (lists p.id)) ∧ d'.capacity = n := by
  induction l generalizing d with
  | nil => exact ⟨d, rfl, hd⟩
  | cons p l ih =>
    rw [List.forall_mem_cons] at hclosed hreserved hlisted
    have hnew : ∀ id ∈ (lists p.id).map Atom.id, id.toNat < d.capacity := by
      intro id hid
      obtain ⟨a, ha, rfl⟩ := List.mem_map.mp hid
      exact hd ▸ hlists p.id a ha
    have hreplace := Patch.replaceAtoms_of_fits hclosed.1 (hd ▸ hlisted.1) hnew hreserved.1
    have hcapacity : (d.exchanged p.id p.ids ((lists p.id).map Atom.id)).capacity = n := by
      rw [Directory.capacity_exchanged, hd]
    obtain ⟨d', hothers, hd'⟩ := ih hclosed.2 hreserved.2 hlisted.2 hcapacity
    refine ⟨d', ?_, hd'⟩
    rw [List.map_cons, replaceEach, hreplace]
    dsimp only
    rw [hothers]
    rfl

/-- **A migration succeeds** if all particles have places. -/
theorem assign_ok_of_fits (hgrid : grid.Fits) (hnamed : s.patchIds = grid.patches)
    (hclosed : ∀ p ∈ s.patches, p.openBoxes = 0) (hcapacity : s.directory.capacity = n)
    (hlisted : ∀ p ∈ s.patches, ∀ id ∈ p.ids, id.toNat < n) {atoms : List Atom}
    (hatoms : ∀ a ∈ atoms, a.id.toNat < n) :
    ∃ m d, assign grid s atoms =
        .ok (m, { s with directory := d, patches := sorted grid atoms s.patches }) ∧
      d.capacity = n := by
  have hreserved : ∀ p ∈ s.patches, p.id ≠ PatchId.reserved := by
    intro p hp hsame
    have hmem : p.id ∈ s.patchIds := List.mem_map_of_mem hp
    rw [hnamed, hsame] at hmem
    exact hgrid.reserved_not_mem hmem
  obtain ⟨d, hreplace, hd⟩ := replaceEach_ok_of_fits
    (fun id => atoms.filter fun a => grid.home a.position = id) hclosed hreserved hlisted
    (fun _ a ha => hatoms a (List.mem_of_mem_filter ha)) hcapacity
  exact ⟨_, d, assign_of_replaced hgrid hnamed (hcapacity ▸ hatoms) hreplace, hd⟩

/-- Sorted patches list particles that were to be sorted. -/
theorem fits_sorted {atoms : List Atom} (hatoms : ∀ a ∈ atoms, a.id.toNat < n) (l : List Patch) :
    ∀ p ∈ sorted grid atoms l, ∀ id ∈ p.ids, id.toNat < n := by
  intro p hp id hid
  obtain ⟨q, -, rfl⟩ := List.mem_map.mp hp
  obtain ⟨a, ha, rfl⟩ := List.mem_map.mp hid
  exact hatoms a (List.mem_of_mem_filter ha)

end Assign

/-! ## Steps -/

variable {plan : Plan} {stream : RandomStream} {run : Run} {k : Nat}

/-- What holds of a run before step `k`: the patches are at rest and have tasks, and every particle
has a place in the directory and a velocity. -/
structure Sustained (plan : Plan) (k : Nat) (run : Run) : Prop where
  /-- the patches are at rest and have tasks -/
  staffed : Staffed plan.grid.patches run.tasks run.assembly.patches
  /-- there is a place for each number -/
  capacity : run.assembly.directory.capacity = plan.config.particles
  /-- particles that are listed have places -/
  listed : ∀ p ∈ run.assembly.patches, ∀ id ∈ p.ids, id.toNat < plan.config.particles
  /-- so have particles that wait -/
  waiting : ∀ atoms, run.waiting = some atoms → ∀ a ∈ atoms, a.id.toNat < plan.config.particles
  /-- there is a velocity for each number -/
  velocities : run.velocities.size = plan.config.particles
  /-- no frame is under way -/
  collecting : Collecting run.assembly.collection plan.grid.cells k 0 0

namespace Sustained

/-- Particles with places are sent to patches. -/
theorem assign (h : Sustained plan k run) (hgrid : plan.grid.Fits) {atoms : List Atom}
    (hatoms : ∀ a ∈ atoms, a.id.toNat < plan.config.particles) :
    ∃ m d, Experiment.assign plan.grid run.assembly atoms =
        .ok (m, { run.assembly with
          directory := d
          patches := Experiment.sorted plan.grid atoms run.assembly.patches }) ∧
      d.capacity = plan.config.particles :=
  assign_ok_of_fits hgrid h.staffed.ready.enrolled.named (fun _ hp => h.staffed.closed hp)
    h.capacity h.listed hatoms

/-- **The migration phase** does not fail. -/
theorem migrate (h : Sustained plan k run) (hgrid : plan.grid.Fits) :
    ∃ migration d patches, Experiment.migrate plan run k =
        .ok (migration, run.placed d patches) ∧
      d.capacity = plan.config.particles ∧ Staffed plan.grid.patches run.tasks patches ∧
      ∀ p ∈ patches, ∀ id ∈ p.ids, id.toNat < plan.config.particles := by
  cases hwaiting : run.waiting with
  | some atoms =>
    have hatoms := h.waiting atoms hwaiting
    obtain ⟨m, d, hassign, hd⟩ := h.assign hgrid hatoms
    refine ⟨some m, d, _, ?_, hd, h.staffed.sorted plan.grid atoms, fits_sorted hatoms _⟩
    rw [Experiment.migrate, hwaiting]
    dsimp only
    rw [hassign]
    rfl
  | none =>
    by_cases hdue : (k - 1) % plan.config.migrationPeriod = 0
    · have hatoms : ∀ a ∈ run.assembly.patches.flatMap Patch.atoms,
          a.id.toNat < plan.config.particles := by
        intro a ha
        obtain ⟨p, hp, ha⟩ := List.mem_flatMap.mp ha
        exact h.listed p hp a.id (List.mem_map_of_mem ha)
      obtain ⟨m, d, hassign, hd⟩ := h.assign hgrid hatoms
      refine ⟨some m, d, _, ?_, hd, h.staffed.sorted plan.grid _, fits_sorted hatoms _⟩
      rw [Experiment.migrate, hwaiting]
      dsimp only
      rw [if_pos hdue, hassign, Run.placed]
      rfl
    · -- nobody moves
      refine ⟨none, run.assembly.directory, run.assembly.patches, ?_, h.capacity, h.staffed,
        h.listed⟩
      rw [Experiment.migrate, hwaiting, Run.placed_self hwaiting]
      exact if_neg hdue

/-- **A step** does not fail, and the next one may follow. -/
theorem advance (h : Sustained plan k run) (hgrid : plan.grid.Fits)
    (horder : (plan.order k run.tasks).Perm run.tasks) :
    ∃ metrics after, Experiment.advance plan run k = .ok (metrics, after) ∧
      Sustained plan (k + 1) after := by
  obtain ⟨migration, d, patches, hmigrate, hd, hstaffed, hlisted⟩ := h.migrate hgrid
  have hfits := hlisted
  rw [← h.velocities] at hfits
  obtain ⟨metrics, after, hadvance, -, -, hafter⟩ :=
    advance_of_migrated hmigrate horder hstaffed hfits h.collecting
  refine ⟨metrics, after, hadvance, hafter.staffed, ?_, fits_of_lists hlisted hafter.lists, ?_,
    hafter.velocities.trans h.velocities, hafter.collecting⟩
  · rw [hafter.directory]
    exact hd
  · intro atoms hwaiting
    cases hafter.waiting.symm.trans hwaiting

/-- **Any number of steps** in a row do not fail. -/
theorem advanceAll (hgrid : plan.grid.Fits)
    (horder : ∀ step tasks, (plan.order step tasks).Perm tasks) (left : Nat)
    (h : Sustained plan k run) (done : List StepMetrics) :
    ∃ steps after, Experiment.advanceAll plan left k done run = .ok (steps, after) ∧
      Sustained plan (k + left) after := by
  induction left generalizing k run done with
  | zero => exact ⟨_, run, rfl, h⟩
  | succ left ih =>
    obtain ⟨metrics, next, hadvance, hnext⟩ := h.advance hgrid (horder k run.tasks)
    obtain ⟨steps, after, hrest, hafter⟩ := ih hnext (metrics :: done)
    rw [Nat.add_right_comm] at hafter
    refine ⟨steps, after, ?_, hafter⟩
    rw [Experiment.advanceAll, hadvance]
    exact hrest

end Sustained

/-! ## Whole experiments -/

/-- The parts of an experiment, none of which fails. -/
theorem run_of_parts {ready after : Run} {steps : List StepMetrics} {report : Report}
    (hstart : start plan stream = .ok ready)
    (hadvance : advanceAll plan plan.config.steps 1 [] ready = .ok (steps, after))
    (hfinish : finish plan steps after = .ok report) :
    Experiment.run plan stream = .ok report := by
  rw [Experiment.run, hstart]
  dsimp only [bind, Except.bind]
  rw [hadvance]
  exact hfinish

/-- A run whose particles wait may go through its first step. -/
theorem sustained_fresh {tasks : List ForceTask} {s : Assembly} {particles : List Particle}
    (hside : 0 < plan.grid.side)
    (hgenerate : Particles.generate plan.particleSpec stream = .ok particles)
    (hstaffed : Staffed plan.grid.patches tasks s.patches)
    (hcontents : s.contents = (Assembly.build plan.settings plan.grid.patches).contents) :
    Sustained plan 1 (.fresh tasks s particles) where
  staffed := hstaffed
  capacity := by
    change s.directory.capacity = _
    rw [directory_of_contents hcontents]
    exact Directory.capacity_allocate _
  listed := by
    intro p hp id hid
    rw [ids_of_contents hcontents p hp] at hid
    exact absurd hid List.not_mem_nil
  waiting := by
    intro atoms hwaiting a ha
    obtain rfl := Option.some.inj hwaiting
    obtain ⟨p, hp, rfl⟩ := List.mem_map.mp ha
    have hid : p.id ∈ particleIds plan.config.particles := by
      rw [← ids_of_generate hgenerate]
      exact List.mem_map_of_mem hp
    exact toNat_lt_of_mem hid
  velocities := size_velocities hgenerate
  collecting := collecting_of_contents hside hcontents

/-- **The experiment as a whole** does not fail, if its particles are generated and its tasks can be
numbered. -/
theorem run_ok_of_fits (valid : plan.config.validate = .ok ()) (hgrid : plan.grid.Fits)
    (few : ∀ pairs, plan.grid.neighborPairs = .ok pairs →
      plan.grid.cells + pairs.length < UInt32.size)
    (horder : ∀ step tasks, (plan.order step tasks).Perm tasks) {particles : List Particle}
    (hgenerate : Particles.generate plan.particleSpec stream = .ok particles)
    (hcapacity : plan.config.particles * 8 ≤ Failure.addressable)
    (hroom : plan.config.steps * stepBytes ≤ Failure.addressable) :
    ∃ report, Experiment.run plan stream = .ok report := by
  obtain ⟨tasks, s, hstart, hstaffed, hcontents⟩ :=
    start_staffed valid hgrid few hgenerate hcapacity hroom
  obtain ⟨steps, after, hadvance, hafter⟩ := Sustained.advanceAll hgrid horder plan.config.steps
    (sustained_fresh hgrid.side hgenerate hstaffed hcontents) []
  exact ⟨_, run_of_parts hstart hadvance (finish_of_staffed hafter.staffed steps)⟩

end PatchDynamics.Experiment
