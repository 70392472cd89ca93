import PatchDynamics.Experiment.Report
import PatchDynamics.ForceTask
import PatchDynamics.Particles

/-!
# Running an experiment

Particles are generated, an assembly with one patch for each cell is built, and all force tasks are
registered. Then every step goes through the same phases:

* **migration** — in the first step, and after every migration period, each particle goes to the
  patch that holds its position;
* **publication** — every patch opens its boxes;
* **forces** — every task runs, in any order, and all patches must have closed their boxes
  afterwards;
* **integration** — velocities and positions are advanced by the total forces;
* **output** — after every output period each patch hands in its slices of positions and velocities.

`start`, `advance` and `finish` are the parts of a run, so that a host may take the time between
them; `run` is all of them in a row.
-/

namespace PatchDynamics.Experiment

/-- Why an experiment did not end well. -/
inductive Error where
  /-- the configuration is not fit -/
  | unfit (reason : Unfit)
  /-- a part of the assembly failed -/
  | failed (failure : Failure)
  /-- a particle belongs to a patch that is not there -/
  | stray (patch : PatchId) (particle : ParticleId)
  /-- patches did not close their boxes in a step -/
  | stalled (step closed patches : Nat)

namespace Error

/-- The wording. -/
def message : Error → String
  | .unfit reason => reason.message
  | .failed failure => failure.message
  | .stray patch particle => s!"no patch {patch.text} for particle {particle.toNat}"
  | .stalled step closed patches =>
    s!"step {step}: only {closed} of {patches} patches closed their boxes"

end Error

/-- A result of the assembly, or its failure as an error. -/
def lift {α : Type} : Except Failure α → Except Error α
  | .ok a => .ok a
  | .error e => .error (.failed e)

/-- A result of a part of the assembly, or its refusal as an error. -/
def liftRefusal {α : Type} : Except Refusal α → Except Error α
  | .ok a => .ok a
  | .error r => .error (.failed (.refused r))

/-- An action on an assembly that has to succeed. -/
def perform {α : Type} (s : Assembly) (action : Action Assembly α) : Except Error (α × Assembly) :=
  match action s with
  | (.ok a, s) => .ok (a, s)
  | (.error e, _) => .error (.failed e)

/-- What an experiment is made of. -/
structure Plan where
  /-- the parameters -/
  config : Config
  /-- the law of force -/
  law : ForceLaw
  /-- the order in which the tasks run in a step -/
  order : Nat → List ForceTask → List ForceTask

namespace Plan

/-- The plan of a configuration: its spring, and tasks in the order of their registration. -/
def ofConfig (c : Config) : Plan :=
  ⟨c, SoftSpring.law ⟨c.springConstant, c.cutoff⟩, fun _ tasks => tasks⟩

/-- The grid. -/
def grid (p : Plan) : Grid := Grid.new p.config.grid p.config.halfWidth

/-- The particles to generate. -/
def particleSpec (p : Plan) : ParticleSpec :=
  ⟨p.config.particles, p.config.halfWidth, p.config.maxVelocity⟩

end Plan

/-- An experiment under way. -/
structure Run where
  /-- the assembly -/
  assembly : Assembly
  /-- the registered tasks -/
  tasks : List ForceTask
  /-- the velocity of each particle -/
  velocities : Array Vec3
  /-- particles that are in no patch yet -/
  waiting : Option (List Atom)
  /-- the collected frames -/
  frames : List FrameSummary
  /-- the refused slices -/
  rejected : List String

/-! ## Migration -/

/-- Counts of a migration. -/
structure Migration where
  /-- particles that change patch -/
  migrations : Nat
  /-- particles that were in no patch -/
  unassigned : Nat
  deriving DecidableEq, Inhabited, Repr

/-- The counts with one more particle, found where the directory says, going to `target`. -/
def Migration.count (m : Migration) (found : Except Refusal Location) (target : PatchId) :
    Except Error Migration :=
  match found with
  | .ok loc => .ok (if loc.patch = target then m else { m with migrations := m.migrations + 1 })
  | .error r =>
    if r.isViolation then .error (.failed (.refused r))
    else .ok { m with unassigned := m.unassigned + 1 }

/-- The target of each atom, and the counts. -/
def targets (grid : Grid) (s : Assembly) :
    List Atom → Migration → Except Error (List (PatchId × Atom) × Migration)
  | [], m => .ok ([], m)
  | a :: rest, m => do
    let target ← lift (grid.patchOf a.position)
    let m ← m.count (s.directory.lookup a.id) target
    if s.patches.length ≤ target.number.toNat then throw (.stray target a.id)
    let (others, m) ← targets grid s rest m
    return ((target, a) :: others, m)

/-- The atoms that go to each of the first `count` patches, in the order in which they come. -/
def distribute (count : Nat) (atoms : List (PatchId × Atom)) : List (List Atom) :=
  (List.range count).map fun i =>
    (atoms.filter fun a => a.1.number.toNat = i).map Prod.snd

/-- Replaces the atoms of each patch by a list of its own. -/
def replaceEach : Directory → List Patch → List (List Atom) →
    Except Failure (Directory × List Patch)
  | d, p :: patches, list :: lists =>
    match p.replaceAtoms d list with
    | (.error e, _, _) => .error e
    | (.ok (), d, p) => (replaceEach d patches lists).map fun (d, patches) => (d, p :: patches)
  | d, patches, _ => .ok (d, patches)

/-- Sends every atom to the patch that holds its position. -/
def assign (grid : Grid) (s : Assembly) (atoms : List Atom) :
    Except Error (Migration × Assembly) := do
  let (targeted, m) ← targets grid s atoms ⟨0, 0⟩
  let lists := distribute s.patches.length targeted
  let (directory, patches) ← lift (replaceEach s.directory s.patches lists)
  return (m, { s with directory := directory, patches := patches })

/-- The migration due before a step: none, or its counts. -/
def migrate (plan : Plan) (run : Run) (step : Nat) : Except Error (Option Migration × Run) :=
  match run.waiting with
  | some atoms => do
    let (m, assembly) ← assign plan.grid run.assembly atoms
    return (some m, { run with assembly := assembly, waiting := none })
  | none =>
    if (step - 1) % plan.config.migrationPeriod = 0 then do
      let (m, assembly) ← assign plan.grid run.assembly (run.assembly.patches.flatMap Patch.atoms)
      return (some m, { run with assembly := assembly })
    else .ok (none, run)

/-! ## Publication and forces -/

/-- Begins a step on each patch; the patches, and what the integrator hears. -/
def publishAll (tag : UInt32) : List Patch → Except Error (List Patch × List Signal)
  | [] => .ok ([], [])
  | p :: rest => do
    let reply := p.positionsReady tag
    liftRefusal reply.outcome
    let (patches, signals) ← publishAll tag rest
    return (reply.patch :: patches, reply.signals ++ signals)

/-- Publishes the positions of all patches. -/
def publish (migrated : Bool) (s : Assembly) : Except Error Assembly := do
  let (patches, signals) ← publishAll (if migrated then 1 else 0) s.patches
  return { s with patches := patches, signals := s.signals ++ signals }

/-- Runs tasks one after the other; the number of interacting pairs. -/
def runTasks (law : ForceLaw) (grid : Grid) :
    List ForceTask → Nat → Assembly → Except Error (Nat × Assembly)
  | [], pairs, s => .ok (pairs, s)
  | t :: rest, pairs, s => do
    let (counts, s) ← perform s (t.run law grid)
    runTasks law grid rest (pairs + counts.interacting) s

/-- The number of patches that told the integrator that their boxes are closed. -/
def closedCount (signals : List Signal) : Nat :=
  (signals.filter fun
    | .boxesClosed _ => true
    | .forcesReady _ _ _ => false).length

/-- Takes what the integrator was told, which must include the closing of every patch's boxes. -/
def awaitBoxes (step : Nat) (s : Assembly) : Except Error Assembly :=
  let (signals, s) := s.takeSignals
  let closed := closedCount signals
  if closed < s.patches.length then .error (.stalled step closed s.patches.length) else .ok s

/-! ## Integration -/

/-- The velocities, and the largest force so far. -/
structure Motion where
  /-- the velocity of each particle -/
  velocities : Array Vec3
  /-- the largest force -/
  maxForce : Float

/-- One atom advanced by a time step under a force. -/
def moveAtom (grid : Grid) (dt : Float) (motion : Motion) (a : Atom) (f : Vec3) :
    Except Error (Atom × Motion) :=
  match motion with
  | ⟨velocities, maxForce⟩ =>
    match velocities[a.id.toNat]? with
    | none => .error (.failed (.fault .outOfBounds))
    | some v =>
      let v := v + f.map (· * dt)
      let moved := a.position + v.map (· * dt)
      .ok (⟨a.id, grid.wrap moved⟩,
        ⟨velocities.setIfInBounds a.id.toNat v, greater maxForce f.norm⟩)

/-- Atoms advanced by a time step, each under its force. -/
def moveAtoms (grid : Grid) (dt : Float) :
    List Atom → List Vec3 → Motion → Except Error (List Atom × Motion)
  | a :: atoms, f :: forces, motion => do
    let (a, motion) ← moveAtom grid dt motion a f
    let (atoms, motion) ← moveAtoms grid dt atoms forces motion
    return (a :: atoms, motion)
  | atoms, _, motion => .ok (atoms, motion)

/-- Positions half way between the old ones and the new ones, the short way around. -/
def halfWay (grid : Grid) (old new : List Atom) : List Atom :=
  List.zipWith (fun o n =>
    ⟨n.id, grid.wrap (o.position + (grid.minimumImage n.position o.position).scale 0.5)⟩) old new

/-- One patch advanced by a time step. -/
def movePatch (plan : Plan) (p : Patch) (motion : Motion) : Except Error (Patch × Motion) := do
  let old := p.atoms
  liftRefusal p.ensureClosed
  let (new, motion) ← moveAtoms plan.grid plan.config.dt old p.sums.total motion
  let p := (p.editAtoms fun _ => new).patch
  if plan.config.averaged then
    let reply := p.setAverages (halfWay plan.grid old new)
    liftRefusal reply.outcome
    return (reply.patch, motion)
  else return (p, motion)

/-- All patches advanced by a time step. -/
def moveAll (plan : Plan) : List Patch → Motion → Except Error (List Patch × Motion)
  | [], motion => .ok ([], motion)
  | p :: rest, motion => do
    let (p, motion) ← movePatch plan p motion
    let (rest, motion) ← moveAll plan rest motion
    return (p :: rest, motion)

/-- The kinetic energy of unit masses: halves of squared speeds, added to minus zero in order. -/
def kineticEnergy (velocities : Array Vec3) : Float :=
  velocities.foldl (fun sum v => sum + 0.5 * (v.norm * v.norm)) (-0.0)

/-- The momentum of unit masses. -/
def momentum (velocities : Array Vec3) : Vec3 := velocities.foldl (· + ·) Vec3.zero

/-! ## Output -/

/-- The two slices of a patch. -/
def slices (plan : Plan) (velocities : Array Vec3) (step : Nat) (p : Patch) : List Slice :=
  let ids := p.atoms.map Atom.id
  let quantity := Quantity.positions (Lattice.cube plan.config.edge) plan.config.precision
  [⟨step, p.id, quantity, ids, p.atoms.map Atom.position⟩,
    ⟨step, p.id, .velocities, ids, ids.map fun id => velocities.getD id.toNat Vec3.zero⟩]

/-- The wording of a refused slice. -/
def rejectionText (seq : Nat) (patch : PatchId) (reason : Refusal) : String :=
  s!"seq {seq} patch {patch.text}: {reason.message}"

/-- The run after one message to the collector. -/
def collect (run : Run) (s : Slice) : Run :=
  let (broadcast, collection) := run.assembly.collection.handle s
  let run := { run with assembly := { run.assembly with collection := collection } }
  match broadcast with
  | none => run
  | some (.assembled name frame) =>
    { run with frames := run.frames ++ [⟨name, frame.seq, frame.size⟩] }
  | some (.rejected seq patch reason) =>
    { run with rejected := run.rejected ++ [rejectionText seq patch reason] }

/-- Whether a step ends an output period. -/
def isOutputStep (c : Config) (step : Nat) : Bool := c.outputPeriod > 0 && step % c.outputPeriod = 0

/-- The run after the output of a step. -/
def output (plan : Plan) (run : Run) (step : Nat) : Run :=
  if isOutputStep plan.config step then
    (run.assembly.patches.flatMap (slices plan run.velocities step)).foldl collect run
  else run

/-! ## The parts of a run -/

/-- The room that the measurements of one step take in a list. -/
def stepBytes : Nat := 80

/-- The run before its first step. -/
def start (plan : Plan) (stream : RandomStream) : Except Error Run := do
  match plan.config.validate with
  | .error reason => throw (.unfit reason)
  | .ok () => pure ()
  let particles ← lift (Particles.generate plan.particleSpec stream)
  let settings ← lift plan.config.settings
  let ids ← lift plan.grid.patchIds
  let tasks ← lift plan.grid.tasks
  let assembly ← lift (Assembly.build? settings ids)
  let (registered, assembly) ← perform assembly (tasks.mapM ForceTask.register)
  lift (Failure.ensureAddressable plan.config.steps stepBytes)
  return {
    assembly := assembly
    tasks := registered
    velocities := (particles.map Particle.velocity).toArray
    waiting := some (particles.map fun p => ⟨p.id, p.position⟩)
    frames := []
    rejected := [] }

/-- One step. -/
def advance (plan : Plan) (run : Run) (step : Nat) : Except Error (StepMetrics × Run) := do
  let (migration, run) ← migrate plan run step
  let assembly ← publish migration.isSome run.assembly
  let (pairs, assembly) ← runTasks plan.law plan.grid (plan.order step run.tasks) 0 assembly
  let assembly ← awaitBoxes step assembly
  let (patches, motion) ← moveAll plan assembly.patches ⟨run.velocities, 0⟩
  let moved := { run with
    assembly := { assembly with patches := patches }
    velocities := motion.velocities }
  let done := output plan moved step
  let counts := migration.getD ⟨0, 0⟩
  return ({
    step := step
    migrations := counts.migrations
    unassigned := counts.unassigned
    kineticEnergy := kineticEnergy done.velocities
    momentum := momentum done.velocities
    maxForce := motion.maxForce
    interacting := pairs
    duration := 0 }, done)

/-- The steps from number `next` on, `left` of them; the last one first in `done`. -/
def advanceAll (plan : Plan) : Nat → Nat → List StepMetrics → Run →
    Except Error (List StepMetrics × Run)
  | 0, _, done, run => .ok (done.reverse, run)
  | left + 1, next, done, run =>
    match advance plan run next with
    | .error e => .error e
    | .ok (metrics, run) => advanceAll plan left (next + 1) (metrics :: done) run

/-- The report of a run whose steps are done: the tasks give their handles back, and the directory
is counted. -/
def finish (plan : Plan) (steps : List StepMetrics) (run : Run) : Except Error Report := do
  let (_, assembly) ← perform run.assembly (run.tasks.forM ForceTask.unregister)
  return {
    config := plan.config
    steps := steps
    frames := run.frames
    rejected := run.rejected
    census := assembly.directory.census }

/-- The whole experiment. -/
def run (plan : Plan) (stream : RandomStream) : Except Error Report := do
  let ready ← start plan stream
  let (steps, done) ← advanceAll plan plan.config.steps 1 [] ready
  finish plan steps done

end PatchDynamics.Experiment
