import Mathlib.Algebra.BigOperators.Group.List.Basic
import PatchDynamics.CommandLine
import PatchDynamics.Proofs.Experiment.Validation
import PatchDynamics.Proofs.Grid.Neighborhood

/-!
# Where positions are placed

On a grid whose cells can be numbered by 32-bit words every position is in a patch, whatever numbers
its arithmetic comes to, because a cell number is cut to the last cell. What sends particles to
patches, or counts them, can therefore rely on finding the patch:

* `Grid.Fits.patchAt_clamped` — any three numbers, cut to the last cell, are the cells of a patch;
* `Experiment.placed` — the particles in a patch, and `assign_eq`, the lists that a migration hands
  out;
* `CommandLine.countAll_eq` — the counts of the particles in each patch;
* `placement_total` — all of it, for any grid, any positions and any particles.
-/

namespace PatchDynamics

/-! ## Positions -/

namespace Grid

variable {g : Grid}

/-- **Any three numbers, cut to the last cell**, are the cells of a patch. -/
theorem Fits.patchAt_clamped (h : g.Fits) (x y z : Nat) :
    ∃ p, g.patchAt (min x (g.side - 1)) (min y (g.side - 1)) (min z (g.side - 1)) = .ok p ∧
      p.number.toNat < g.side ^ 3 ∧
      g.coordinates p =
        .ok (min x (g.side - 1), min y (g.side - 1), min z (g.side - 1)) := by
  have hcut : ∀ n, min n (g.side - 1) < g.side := fun n => by
    have hside := h.side
    omega
  obtain ⟨p, hp, hmem⟩ := h.patchAt_mem (hcut x) (hcut y) (hcut z)
  refine ⟨p, hp, h.mem_patches_pow.mp hmem, ?_⟩
  rw [h.coordinates_eq, h.cellsOf_patchAt (hcut x) (hcut y) (hcut z) hp]

/-- The patch of a position is compared with that of its home. -/
theorem Fits.patchOf_eq_iff (h : g.Fits) (v : Vec3) (p : PatchId) :
    (g.patchOf v).toOption = some p ↔ g.home v = p := by
  rw [h.patchOf_home]
  exact Option.some_inj

/-- The tasks fail only where they cannot be numbered. -/
theorem Fits.tasks_cases (h : g.Fits) :
    (∃ tasks, g.tasks = .ok tasks) ∨ g.tasks = .error (.fault .overflow) := by
  by_cases few : g.cells + g.touching.length < UInt32.size
  · exact .inl (h.tasks_ok_iff.mpr few)
  · exact .inr (h.tasks_overflow (Nat.not_lt.mp few))

end Grid

/-! ## Migration -/

namespace Experiment

variable {grid : Grid} {s s' : Assembly} {atoms : List Atom} {a : Atom} {m : Migration}

/-- The atoms whose positions are in a patch, in the order in which they come. -/
def placed (grid : Grid) (atoms : List Atom) (p : PatchId) : List Atom :=
  atoms.filter fun a => (grid.patchOf a.position).toOption = some p

/-- The first atom that the directory has no room for. -/
def misfit? (d : Directory) (atoms : List Atom) : Option Atom :=
  atoms.find? fun a => d.capacity ≤ a.id.toNat

theorem placed_eq (hgrid : grid.Fits) (atoms : List Atom) (p : PatchId) :
    placed grid atoms p = atoms.filter fun a => grid.home a.position = p :=
  List.filter_congr fun a _ => by
    rw [decide_eq_decide]
    exact hgrid.patchOf_eq_iff a.position p

/-- **Every atom is placed once.** -/
theorem placed_perm (hgrid : grid.Fits) (atoms : List Atom) :
    (grid.patches.flatMap (placed grid atoms)).Perm atoms := by
  rw [List.flatMap_congr fun p _ => placed_eq hgrid atoms p]
  exact flatMap_filter_perm hgrid.nodup fun a _ => hgrid.home_mem a.position

/-- The first atom without room ends the search for targets. -/
theorem targets_misfit (hgrid : grid.Fits) (hpatches : s.patches.length = grid.cells)
    (hmisfit : misfit? s.directory atoms = some a) (m : Migration) :
    targets grid s atoms m =
      .error (.failed (.refused (.outOfRange a.id s.directory.capacity))) := by
  induction atoms generalizing m with
  | nil => cases hmisfit
  | cons b atoms ih =>
    rw [targets, hgrid.patchOf_home]
    dsimp only [bind, Except.bind, lift, pure, Except.pure]
    by_cases hbeyond : s.directory.capacity ≤ b.id.toNat
    · have hfirst : b = a := by
        rwa [misfit?, List.find?_cons_of_pos (by simpa using hbeyond), Option.some_inj] at hmisfit
      rw [Directory.lookup, if_pos hbeyond, hfirst]
      rfl
    · rw [misfit?, List.find?_cons_of_neg (by simpa using hbeyond)] at hmisfit
      have hthere : ¬ s.patches.length ≤ (grid.home b.position).number.toNat := by
        rw [hpatches]
        exact Nat.not_le_of_lt (hgrid.mem_patches.mp (hgrid.home_mem b.position))
      rw [count_ok (Nat.not_le.mp hbeyond)]
      dsimp only
      rw [if_neg hthere, ih hmisfit]

/-- Where replacing succeeds, every patch has taken over its list. -/
theorem replaceEach_eq {d d' : Directory} {patches patches' : List Patch} {lists : List (List Atom)}
    (hreplace : replaceEach d patches lists = .ok (d', patches'))
    (hlength : lists.length = patches.length) :
    patches' = List.zipWith Patch.replaced patches lists := by
  induction patches generalizing d lists patches' with
  | nil =>
    obtain rfl := List.eq_nil_of_length_eq_zero hlength
    cases hreplace
    rfl
  | cons p patches ih =>
    cases lists with
    | nil => cases hlength
    | cons list lists =>
      rw [replaceEach] at hreplace
      have hall := Patch.replacement d p list
      generalize p.replaceAtoms d list = result at hall hreplace
      cases hall with
      | busy => cases hreplace
      | stray => cases hreplace
      | misfit => cases hreplace
      | reserved => cases hreplace
      | replaced =>
        dsimp only at hreplace
        generalize hrest : replaceEach _ patches lists = rest at hreplace
        cases rest with
        | error e => cases hreplace
        | ok result =>
          cases hreplace
          rw [List.zipWith_cons_cons, ← ih hrest (Nat.succ.inj hlength)]

/-- **What a migration does** with atoms that the directory has room for: every patch is handed the
atoms that are placed there. -/
theorem assign_eq (hgrid : grid.Fits) (hnamed : s.patchIds = grid.patches)
    (hfits : ∀ a ∈ atoms, a.id.toNat < s.directory.capacity) :
    assign grid s atoms =
      (lift (replaceEach s.directory s.patches (s.patchIds.map (placed grid atoms)))).map
        fun result => (⟨atoms.countP (changesPatch grid s.directory),
            atoms.countP (isLost s.directory)⟩,
          { s with directory := result.1, patches := result.2 }) := by
  have hlists : distribute s.patches.length (atoms.map fun a => (grid.home a.position, a)) =
      s.patchIds.map (placed grid atoms) := by
    rw [distribute_eq hgrid hnamed, Assembly.patchIds, List.map_map]
    exact List.map_congr_left fun p _ => (placed_eq hgrid atoms p.id).symm
  rw [assign, targets_ok hgrid (length_of_named hnamed) hfits]
  dsimp only [bind, Except.bind]
  rw [hlists, Nat.zero_add, Nat.zero_add]
  cases replaceEach s.directory s.patches (s.patchIds.map (placed grid atoms)) <;> rfl

/-- The first atom without room ends a migration before anything is handed out. -/
theorem assign_misfit (hgrid : grid.Fits) (hnamed : s.patchIds = grid.patches)
    (hmisfit : misfit? s.directory atoms = some a) :
    assign grid s atoms =
      .error (.failed (.refused (.outOfRange a.id s.directory.capacity))) := by
  rw [assign, targets_misfit hgrid (length_of_named hnamed) hmisfit]
  rfl

/-- Either all atoms have room, or there is a first one that has none. -/
theorem misfit?_eq_none_iff {d : Directory} :
    misfit? d atoms = none ↔ ∀ a ∈ atoms, a.id.toNat < d.capacity := by
  rw [misfit?, List.find?_eq_none]
  simp only [decide_eq_true_eq, Nat.not_le]

/-- **A migration finds the patch of every atom.** -/
theorem assign_ne_stray (hgrid : grid.Fits) (hnamed : s.patchIds = grid.patches) (p : PatchId)
    (id : ParticleId) : assign grid s atoms ≠ .error (.stray p id) := by
  cases hmisfit : misfit? s.directory atoms with
  | some a =>
    rw [assign_misfit hgrid hnamed hmisfit]
    exact nofun
  | none =>
    rw [assign_eq hgrid hnamed (misfit?_eq_none_iff.mp hmisfit)]
    cases replaceEach s.directory s.patches (s.patchIds.map (placed grid atoms)) <;> exact nofun

/-- **A migration that succeeds** leaves every atom in the patch where it is placed. -/
theorem atoms_of_assign (hgrid : grid.Fits) (hnamed : s.patchIds = grid.patches)
    (hassign : assign grid s atoms = .ok (m, s')) :
    s'.patchIds = s.patchIds ∧ s'.patches.map Patch.atoms = s.patchIds.map (placed grid atoms) := by
  have hfits : ∀ a ∈ atoms, a.id.toNat < s.directory.capacity := by
    rw [← misfit?_eq_none_iff, Option.eq_none_iff_forall_not_mem]
    intro a hmisfit
    cases (assign_misfit hgrid hnamed hmisfit).symm.trans hassign
  rw [assign_eq hgrid hnamed hfits] at hassign
  generalize hreplace : replaceEach _ _ _ = result at hassign
  cases result with
  | error e => cases hassign
  | ok result =>
    obtain ⟨d, patches⟩ := result
    cases hassign
    have hlength : (s.patchIds.map (placed grid atoms)).length = s.patches.length := by
      rw [List.length_map, Assembly.patchIds, List.length_map]
    obtain rfl := replaceEach_eq hreplace hlength
    rw [Assembly.patchIds, Assembly.patchIds, List.map_map, List.zipWith_map_right,
      List.zipWith_self, List.map_map, List.map_map]
    exact ⟨rfl, rfl⟩

end Experiment

/-! ## Counts -/

namespace CommandLine

variable {g : Grid} {c : Experiment.Config} {o : DecomposeOptions} {fallback : RandomStream}

/-- The number of particles in a patch. -/
def population (g : Grid) (particles : List Particle) (p : PatchId) : Nat :=
  particles.countP fun q => (g.patchOf q.position).toOption = some p

theorem population_eq (hgrid : g.Fits) (particles : List Particle) (p : PatchId) :
    population g particles p = (particles.filter fun q => g.home q.position = p).length := by
  rw [population, List.countP_eq_length_filter]
  refine congrArg List.length (List.filter_congr fun q _ => ?_)
  rw [decide_eq_decide]
  exact hgrid.patchOf_eq_iff q.position p

/-- Every particle is counted once. -/
theorem sum_population (hgrid : g.Fits) (particles : List Particle) :
    (g.patches.map (population g particles)).sum = particles.length := by
  have hperm : (g.patches.flatMap fun p => particles.filter fun q => g.home q.position = p).Perm
      particles := flatMap_filter_perm hgrid.nodup fun q _ => hgrid.home_mem q.position
  rw [← hperm.length_eq, List.length_flatMap]
  exact congrArg List.sum (List.map_congr_left fun p _ => population_eq hgrid particles p)

/-- One particle more adds one to the count of its patch. -/
theorem countParticle_eq (hgrid : g.Fits) (counts : PatchId → Nat) (q : Particle) :
    countParticle g (g.patches.map counts).toArray q =
      .ok (g.patches.map fun p => counts p + population g [q] p).toArray := by
  have hlt := hgrid.mem_patches.mp (hgrid.home_mem q.position)
  have hsize : (g.home q.position).number.toNat < (g.patches.map counts).toArray.size := by
    rwa [List.size_toArray, List.length_map, Grid.length_patches]
  rw [countParticle, hgrid.patchOf_home]
  dsimp only [bind, Except.bind]
  rw [if_pos hsize, List.modify_toArray]
  refine congrArg Except.ok (congrArg List.toArray (List.ext_getElem? fun i => ?_))
  rw [List.getElem?_modify, List.getElem?_map, List.getElem?_map, Grid.patches, List.getElem?_map]
  by_cases hi : i < g.cells
  · -- the patch at an index has the index as its number
    have hhome := hgrid.number_eq_iff (p := g.home q.position) hi
    have hone : population g [q] ⟨UInt32.ofNat i⟩ =
        if (g.home q.position).number.toNat = i then 1 else 0 := by
      rw [population_eq hgrid, List.filter_singleton]
      by_cases hsame : g.home q.position = ⟨UInt32.ofNat i⟩
      · rw [if_pos (hhome.mpr hsame), decide_eq_true hsame]
        rfl
      · rw [if_neg fun hnumber => hsame (hhome.mp hnumber), decide_eq_false hsame]
        rfl
    rw [List.getElem?_range hi]
    simp only [Option.map_some, hone]
    split <;> rfl
  · rw [List.getElem?_eq_none (by rw [List.length_range]; exact Nat.not_lt.mp hi)]
    rfl

theorem foldlM_countParticle (hgrid : g.Fits) (particles : List Particle) (counts : PatchId → Nat) :
    particles.foldlM (countParticle g) (g.patches.map counts).toArray =
      .ok (g.patches.map fun p => counts p + population g particles p).toArray := by
  induction particles generalizing counts with
  | nil => rfl
  | cons q particles ih =>
    rw [List.foldlM_cons, countParticle_eq hgrid]
    dsimp only [bind, Except.bind]
    rw [ih]
    refine congrArg Except.ok (congrArg List.toArray (List.map_congr_left fun p _ => ?_))
    have hsplit : population g (q :: particles) p =
        population g [q] p + population g particles p := by
      rw [population, ← List.singleton_append, List.countP_append]
      rfl
    rw [hsplit, Nat.add_assoc]

/-- **The counts of the particles** in each patch. -/
theorem countAll_eq (hgrid : g.Fits) (particles : List Particle) :
    countAll g particles = .ok (g.patches.map (population g particles)).toArray := by
  have hroom : g.cells * 8 ≤ Failure.addressable :=
    Nat.le_trans (Nat.mul_le_mul_right 8 (Nat.le_of_lt hgrid.cells)) (by decide)
  have hzero : Array.replicate g.cells 0 = (g.patches.map fun _ => 0).toArray := by
    rw [List.map_const', Grid.length_patches, List.toArray_replicate]
  rw [countAll, hgrid.patchCount_eq]
  dsimp only [bind, Except.bind]
  rw [Failure.ensureAddressable, if_pos hroom]
  dsimp only
  rw [hzero, foldlM_countParticle hgrid]
  simp only [Nat.zero_add]

/-- The particles that the `decompose` command generates. -/
def decomposedParticles (c : Experiment.Config) (o : DecomposeOptions) (fallback : RandomStream) :
    Except Failure (List Particle) :=
  Particles.generate ⟨o.particles.getD c.particles, c.halfWidth, c.maxVelocity⟩
    (streamOf (o.seed.or c.seed) fallback)

/-- The lines of the `decompose` command are made from its particles and its tasks. -/
theorem decomposeLines_eq (hgrid : g.Fits) (hg : Grid.new (o.grid.getD c.grid) c.halfWidth = g) :
    decomposeLines c o fallback = (do
      let particles ← decomposedParticles c o fallback
      let tasks ← g.tasks
      return s!"{g.cells} patches, {tasks.length} tasks" ::
        (g.patches.map (population g particles)).zipIdx.map
          fun (count, patch) => patchLine patch count) := by
  rw [decomposeLines, hg, decomposedParticles]
  refine bind_congr fun particles => ?_
  rw [countAll_eq hgrid]
  dsimp only [bind, Except.bind]
  rw [List.size_toArray, List.length_map, Grid.length_patches]

/-- The generator runs out of room or out of a range, never out of a list. -/
theorem generate_ne_outOfBounds (spec : ParticleSpec) (stream : RandomStream) :
    Particles.generate spec stream ≠ .error (.fault .outOfBounds) := by
  by_cases hroom : spec.count * Particles.particleBytes ≤ Failure.addressable
  · by_cases hdraw : Particles.Drawable spec
    · obtain ⟨particles, hparticles⟩ := (Particles.generate_ok_iff hroom stream).mpr hdraw
      simp [hparticles]
    · simp [Particles.generate_error hroom hdraw]
  · simp [Particles.generate, Failure.ensureAddressable, if_neg hroom, bind, Except.bind]

/-- **The command never indexes out of bounds.** -/
theorem decomposeLines_ne_outOfBounds (hgrid : g.Fits)
    (hg : Grid.new (o.grid.getD c.grid) c.halfWidth = g) :
    decomposeLines c o fallback ≠ .error (.fault .outOfBounds) := by
  rw [decomposeLines_eq hgrid hg]
  cases hparticles : decomposedParticles c o fallback with
  | error e =>
    intro herror
    cases herror
    exact generate_ne_outOfBounds _ _ hparticles
  | ok particles =>
    obtain ⟨tasks, htasks⟩ | htasks := hgrid.tasks_cases
    · rw [htasks]
      exact nofun
    · rw [htasks]
      exact nofun

end CommandLine

/-! ## All of it -/

open Experiment CommandLine in
/-- **Every position is in a patch.** Take a grid with cells, up to 2 ^ 32 of them, and any half
edge. Whatever three numbers come out of the arithmetic on a position, cut to the last cell they are
the cells of a patch whose number is below that of the cells; so every position is in such a patch,
at its three cells. A migration of any atoms, in an assembly with just the patches of the grid,
never meets an atom without a patch. It fails at once where the directory has no room for an atom;
otherwise it hands each patch the atoms that are placed there, in their order, which are all of
them, each once, and if the patches take them over they are what the patches hold afterwards. The
counts of the `decompose` command are the numbers of particles placed in each patch, their sum is
the number of all particles, and the command never indexes out of bounds. -/
theorem placement_total {g : Grid} (hside : 0 < g.side) (few : g.side ^ 3 ≤ 2 ^ 32) :
    (∀ x y z : Nat, ∃ p,
      g.patchAt (min x (g.side - 1)) (min y (g.side - 1)) (min z (g.side - 1)) = .ok p ∧
      p.number.toNat < g.side ^ 3 ∧
      g.coordinates p =
        .ok (min x (g.side - 1), min y (g.side - 1), min z (g.side - 1))) ∧
    (∀ v, ∃ p, g.patchOf v = .ok p ∧ p.number.toNat < g.side ^ 3 ∧
      g.coordinates p = .ok (g.cell (g.wrap v).x, g.cell (g.wrap v).y, g.cell (g.wrap v).z)) ∧
    (∀ (s : Assembly) (atoms : List Atom), g.patchIds = .ok s.patchIds →
      (s.patchIds.flatMap (placed g atoms)).Perm atoms ∧
      (∀ p id, assign g s atoms ≠ .error (.stray p id)) ∧
      (∀ a, misfit? s.directory atoms = some a → assign g s atoms =
        .error (.failed (.refused (.outOfRange a.id s.directory.capacity)))) ∧
      (misfit? s.directory atoms = none → ∃ m, assign g s atoms =
        (lift (replaceEach s.directory s.patches (s.patchIds.map (placed g atoms)))).map
          fun result => (m, { s with directory := result.1, patches := result.2 })) ∧
      ∀ m s', assign g s atoms = .ok (m, s') →
        s'.patchIds = s.patchIds ∧
        s'.patches.map Patch.atoms = s.patchIds.map (placed g atoms)) ∧
    (∀ particles, ∃ ids counts, g.patchIds = .ok ids ∧ countAll g particles = .ok counts ∧
      counts.size = g.side ^ 3 ∧ counts.toList = ids.map (population g particles) ∧
      counts.toList.sum = particles.length) ∧
    ∀ c o fallback, Grid.new (o.grid.getD c.grid) c.halfWidth = g →
      decomposeLines c o fallback ≠ .error (.fault .outOfBounds) ∧
      ∀ lines, decomposeLines c o fallback = .ok lines → ∃ particles counts,
        decomposedParticles c o fallback = .ok particles ∧
        particles.length = o.particles.getD c.particles ∧ countAll g particles = .ok counts ∧
        lines.tail = counts.toList.zipIdx.map fun (count, patch) => patchLine patch count := by
  have h : g.Fits := .of_pow hside few
  have hids := h.patchIds_eq
  refine ⟨h.patchAt_clamped, fun v => h.patchAt_clamped _ _ _, fun s atoms hnamed => ?_,
    fun particles => ?_, fun c o fallback hg => ⟨decomposeLines_ne_outOfBounds h hg, ?_⟩⟩
  · rw [hids] at hnamed
    obtain hnamed := (Except.ok.inj hnamed).symm
    refine ⟨?_, assign_ne_stray h hnamed, fun a => assign_misfit h hnamed,
      fun hnone => ⟨_, assign_eq h hnamed (misfit?_eq_none_iff.mp hnone)⟩,
      fun m s' => atoms_of_assign h hnamed⟩
    rw [hnamed]
    exact placed_perm h atoms
  · refine ⟨g.patches, _, hids, countAll_eq h particles, ?_, rfl, sum_population h particles⟩
    rw [List.size_toArray, List.length_map, Grid.length_patches, Grid.cells_eq_pow]
  · intro lines hlines
    rw [decomposeLines_eq h hg] at hlines
    obtain ⟨particles, hparticles, hlines⟩ := exists_ok_of_bind hlines
    obtain ⟨tasks, -, hlines⟩ := exists_ok_of_bind hlines
    cases hlines
    refine ⟨particles, _, hparticles, ?_, countAll_eq h particles, rfl⟩
    rw [← List.length_map Particle.id, Particles.map_id_generate hparticles, List.length_map,
      List.length_range]

/-- On the largest grid, and with an edge that is not a number, even a position at infinity is in a
patch. -/
theorem placement_total_nan :
    let g := Grid.new 1625 (0 / 0)
    0 < g.side ∧ g.side ^ 3 ≤ 2 ^ 32 ∧
      ∃ p, g.patchOf ⟨1 / 0, -1 / 0, 0⟩ = .ok p ∧ p.number.toNat < g.side ^ 3 := by
  intro g
  have hside : 0 < g.side := by decide
  have few : g.side ^ 3 ≤ 2 ^ 32 := by decide +kernel
  obtain ⟨-, hpositions, -⟩ := placement_total hside few
  obtain ⟨p, hp, hlt, -⟩ := hpositions ⟨1 / 0, -1 / 0, 0⟩
  exact ⟨hside, few, p, hp, hlt⟩

end PatchDynamics
