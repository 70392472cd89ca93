import PatchDynamics.Experiment.Run
import PatchDynamics.Path

/-!
# The command line

What the program is asked to do, and what it answers. Reading the arguments and answering are pure;
the host only reads the configuration file, draws a random key, looks at the clock and writes the
output.

Arguments are options, each at most once, and one command. An option's value follows its name after
an equals sign, or as the next argument, which must not look like an option itself. Numbers are
unsigned 64-bit words. Arguments that cannot be understood are a usage error.
-/

namespace PatchDynamics.CommandLine

open PatchDynamics.Experiment

/-! ## Reading arguments -/

/-- The options of the `run` command. -/
structure RunOptions where
  /-- cells along each axis -/
  grid : Option Nat
  /-- number of particles -/
  particles : Option Nat
  /-- steps to run -/
  steps : Option Nat
  /-- steps between migrations -/
  migrationPeriod : Option Nat
  /-- steps between frames -/
  outputPeriod : Option Nat
  /-- the word for a precision -/
  precision : Option String
  /-- the seed -/
  seed : Option Nat
  /-- where the record goes, before the time is put into the name -/
  output : String
  deriving Inhabited

/-- The options of the `decompose` command. -/
structure DecomposeOptions where
  /-- cells along each axis -/
  grid : Option Nat
  /-- number of particles -/
  particles : Option Nat
  /-- the seed -/
  seed : Option Nat
  deriving Inhabited

/-- What is to be done. -/
inductive Command where
  /-- runs an experiment and keeps its record -/
  | run (options : RunOptions)
  /-- shows how many generated particles each patch gets -/
  | decompose (options : DecomposeOptions)

/-- An understood command line. -/
structure Invocation where
  /-- the configuration file, if one is named -/
  config : Option String
  /-- whether to log more -/
  verbose : Bool
  /-- what is to be done -/
  command : Command

/-- What the arguments ask for. -/
inductive Request where
  /-- a command -/
  | invoke (invocation : Invocation)
  /-- the version -/
  | version
  /-- the help text -/
  | help
  /-- nothing that can be understood -/
  | misuse

/-- The values that an option takes. -/
inductive ValueKind where
  /-- an unsigned 64-bit word -/
  | word
  /-- any text -/
  | text
  /-- a path, which is not empty -/
  | path
  deriving DecidableEq

/-- An unsigned 64-bit word in decimal digits, a plus sign allowed in front. -/
def word? (s : String) : Option Nat :=
  let cs := match s.toList with
    | '+' :: rest => rest
    | cs => cs
  if cs.isEmpty || !cs.all Char.isDigit then none
  else
    let n := cs.foldl (fun n c => n * 10 + (c.toNat - '0'.toNat)) 0
    if n < Grid.wordBound then some n else none

/-- Whether a value is one of its kind. -/
def ValueKind.admits : ValueKind → String → Bool
  | .word, s => (word? s).isSome
  | .text, _ => true
  | .path, s => !s.isEmpty

/-- Whether an argument cannot be the value of the option before it. -/
def looksLikeOption (arg : String) : Bool := arg.startsWith "-" && arg ≠ "-"

/-- The name in a long option, and the value after its equals sign. -/
def splitLong (arg : String) : String × Option String :=
  let body := arg.toList.drop 2
  let name := String.ofList (body.takeWhile (· ≠ '='))
  match body.dropWhile (· ≠ '=') with
  | [] => (name, none)
  | _ :: value => (name, some (String.ofList value))

/-- The value of an option, written with it or taken from the next argument, and the arguments
left. -/
def valueOf (written : Option String) (rest : List String) : Option (String × List String) :=
  match written, rest with
  | some value, rest => some (value, rest)
  | none, value :: rest => if looksLikeOption value then none else some (value, rest)
  | none, [] => none

/-- The options after a command: their values by name, or the request that ends the reading. -/
def commandOptions (kinds : List (String × ValueKind)) :
    Nat → List String → List (String × String) → Except Request (List (String × String))
  | _, [], found => .ok found
  | 0, _, _ => .error .misuse
  | fuel + 1, arg :: rest, found =>
    if arg = "--" then (if rest.isEmpty then .ok found else .error .misuse)
    else if arg.startsWith "--" then
      let (name, written) := splitLong arg
      if name = "help" then .error (if written.isNone then .help else .misuse)
      else match kinds.lookup name with
        | none => .error .misuse
        | some kind =>
          match valueOf written rest with
          | none => .error .misuse
          | some (value, rest) =>
            if (found.lookup name).isSome || !kind.admits value then .error .misuse
            else commandOptions kinds fuel rest ((name, value) :: found)
    else if arg.startsWith "-h" then .error .help
    else .error .misuse

/-- The options of the `run` command and the kinds of their values. -/
def runKinds : List (String × ValueKind) :=
  [("grid", .word), ("particles", .word), ("steps", .word), ("migration-period", .word),
    ("output-period", .word), ("precision", .text), ("seed", .word), ("output", .path)]

/-- The options of the `decompose` command and the kinds of their values. -/
def decomposeKinds : List (String × ValueKind) :=
  [("grid", .word), ("particles", .word), ("seed", .word)]

/-- The number given for an option. -/
def wordOf (found : List (String × String)) (name : String) : Option Nat :=
  (found.lookup name).bind word?

/-- The `run` command with the given options. -/
def runCommand (args : List String) : Except Request Command := do
  let found ← commandOptions runKinds args.length args []
  return .run {
    grid := wordOf found "grid"
    particles := wordOf found "particles"
    steps := wordOf found "steps"
    migrationPeriod := wordOf found "migration-period"
    outputPeriod := wordOf found "output-period"
    precision := found.lookup "precision"
    seed := wordOf found "seed"
    output := (found.lookup "output").getD "migration.json" }

/-- The `decompose` command with the given options. -/
def decomposeCommand (args : List String) : Except Request Command := do
  let found ← commandOptions decomposeKinds args.length args []
  return .decompose {
    grid := wordOf found "grid"
    particles := wordOf found "particles"
    seed := wordOf found "seed" }

/-- A cluster of short options: whether it asks to log more, or the request that ends the
reading. -/
def shortOptions : Bool → List Char → Except Request Bool
  | verbose, [] => .ok verbose
  | verbose, c :: rest =>
    if c = 'v' then (if verbose then .error .misuse else shortOptions true rest)
    else if c = 'V' then .error .version
    else if c = 'h' then .error .help
    else .error .misuse

/-- The request for help with a command. -/
def helpWith : List String → Request
  | [] => .help
  | [command] => if ["run", "decompose", "help"].contains command then .help else .misuse
  | _ => .misuse

/-- All arguments, given the options already read. -/
def arguments : Nat → List String → Option String → Bool → Except Request Invocation
  | _, [], _, _ => .error .misuse
  | 0, _, _, _ => .error .misuse
  | fuel + 1, arg :: rest, config, verbose =>
    if arg = "run" then do return ⟨config, verbose, ← runCommand rest⟩
    else if arg = "decompose" then do return ⟨config, verbose, ← decomposeCommand rest⟩
    else if arg = "help" then .error (helpWith rest)
    else if arg.startsWith "--" then
      let (name, written) := splitLong arg
      if name = "config" then
        match valueOf written rest with
        | none => .error .misuse
        | some (value, rest) =>
          if config.isSome || !ValueKind.path.admits value then .error .misuse
          else arguments fuel rest (some value) verbose
      else if written.isSome then .error .misuse
      else if name = "verbose" then
        (if verbose then .error .misuse else arguments fuel rest config true)
      else if name = "version" then .error .version
      else if name = "help" then .error .help
      else .error .misuse
    else if looksLikeOption arg then do
      let verbose ← shortOptions verbose (arg.toList.drop 1)
      arguments fuel rest config verbose
    else .error .misuse

/-- What the arguments ask for. The configuration file may also be named by the environment, which
counts when no argument names one. -/
def read (args : List String) (environment : Option String) : Request :=
  match arguments args.length args none false with
  | .error request => request
  | .ok invocation =>
    match invocation.config, environment with
    | none, some "" => .misuse
    | none, some path => .invoke { invocation with config := some path }
    | _, _ => .invoke invocation

/-! ## Answering -/

/-- What the program is called, with its version. -/
def versionLine : String := "migration-experiment 0.1.0"

/-- The wording of a configuration file that cannot be read. -/
def unreadable (path : String) : String := s!"reading config {path}"

/-- The wording of a configuration file that is no configuration. -/
def unparsable (path : String) : String := s!"parsing config {path}"

/-- The configuration of an invocation, given the text of the file it names, none if the file cannot
be read. -/
def configOf (path : Option String) (text : Option String) : Except String Config :=
  match path, text with
  | none, _ => .ok Config.default
  | some path, none => .error (unreadable path)
  | some path, some text =>
    match Config.parse? text with
    | none => .error (unparsable path)
    | some config => .ok config

/-- The precision that a word stands for, whatever the case of its letters. -/
def precisionOf (word : String) : Except String Precision :=
  let w := word.map Char.toLower
  if w = "low" || w = "single" || w = "f32" then .ok .low
  else if w = "high" || w = "double" || w = "f64" then .ok .high
  else if w = "both" then .ok .both
  else .error s!"Unknown precision: {word}. Valid: low, high, both"

/-- The configuration with the options of the `run` command in place of its parameters. -/
def applyOptions (c : Config) (o : RunOptions) : Except String Config := do
  let precision ← match o.precision with
    | none => pure c.precision
    | some word => precisionOf word
  return { c with
    grid := o.grid.getD c.grid
    particles := o.particles.getD c.particles
    steps := o.steps.getD c.steps
    migrationPeriod := o.migrationPeriod.getD c.migrationPeriod
    outputPeriod := o.outputPeriod.getD c.outputPeriod
    precision := precision
    seed := o.seed.or c.seed }

/-- How a command ends. -/
inductive Ending (α : Type) where
  /-- it is done -/
  | done (a : α)
  /-- it fails, with a message -/
  | failed (message : String)
  /-- it stops at a fault -/
  | aborted

/-- The exit code of an ending. -/
def Ending.exitCode {α : Type} : Ending α → UInt32
  | .done _ => 0
  | .failed _ => 1
  | .aborted => 101

/-- The exit code of a usage error. -/
def misuseCode : UInt32 := 2

/-- The line that tells the message of a failure. -/
def errorLine (message : String) : String := s!"Error: {message}"

/-- The ending of a failure. -/
def endingOfFailure {α : Type} : Failure → Ending α
  | .fault _ => .aborted
  | e => .failed e.message

/-- The ending of an experiment's error. -/
def endingOfError {α : Type} : Error → Ending α
  | .failed e => endingOfFailure e
  | e => .failed e.message

/-- The stream of random words: that of the seed if there is one. -/
def streamOf (seed : Option Nat) (fallback : RandomStream) : RandomStream :=
  match seed with
  | none => fallback
  | some n => RandomStream.ofSeed n

/-- `s` with blanks in front up to a width. -/
def padLeft (width : Nat) (s : String) : String := "".pushn ' ' (width - s.length) ++ s

/-! ### Decompose -/

/-- The counts with one more particle in a patch. -/
def countParticle (g : Grid) (counts : Array Nat) (p : Particle) : Except Failure (Array Nat) := do
  let patch ← g.patchOf p.position
  if patch.number.toNat < counts.size then
    return counts.modify patch.number.toNat (· + 1)
  else throw (.fault .outOfBounds)

/-- The number of particles in each patch. -/
def countAll (g : Grid) (particles : List Particle) : Except Failure (Array Nat) := do
  let count ← g.patchCount
  Failure.ensureAddressable count 8
  particles.foldlM (countParticle g) (Array.replicate count 0)

/-- The line of one patch. -/
def patchLine (patch count : Nat) : String :=
  s!"  patch {padLeft 4 (toString patch)}: {padLeft 6 (toString count)} particles"

/-- The lines that the `decompose` command prints. -/
def decomposeLines (c : Config) (o : DecomposeOptions) (fallback : RandomStream) :
    Except Failure (List String) := do
  let g := Grid.new (o.grid.getD c.grid) c.halfWidth
  let count := o.particles.getD c.particles
  let spec := { count, halfWidth := c.halfWidth, maxVelocity := c.maxVelocity }
  let particles ← Particles.generate spec (streamOf (o.seed.or c.seed) fallback)
  let counts ← countAll g particles
  let tasks ← g.tasks
  return s!"{counts.size} patches, {tasks.length} tasks" ::
    counts.toList.zipIdx.map fun (count, patch) => patchLine patch count

/-! ### Run -/

/-- Where a record goes: the directory, and the name with the time in it. -/
def outputPath (output stamp : String) : String × String :=
  let parts := Path.parts output
  let stem := parts.stem.getD "results"
  let extension := parts.extension.getD "json"
  (parts.directory.getD ".", s!"{stem}-{stamp}.{extension}")

/-- The lines about refused slices, if there are any. -/
def rejectionLines (rejected : List String) : List String :=
  if rejected.isEmpty then []
  else "Rejected contributions:" :: rejected.map fun r => s!"  {r}"

/-- The lines that the `run` command prints, given the texts that depend on the moment. -/
def reportLines (r : Report) (id duration path : String) : Except Failure (List String) := do
  let migrations ← r.totalMigrations
  let positions := r.framesOf "positions"
  let velocities := r.framesOf "velocities"
  return [
    "",
    "=== Experiment Result ===",
    s!"Run: {id}",
    s!"Steps: {r.steps.length}",
    s!"Duration: {duration}",
    s!"Migrations: {migrations}",
    s!"Final kinetic energy: {Decimal.fixed 4 r.finalKineticEnergy}",
    s!"Momentum drift: {Decimal.scientific 3 r.momentumDrift}",
    s!"Frames: {positions} positions, {velocities} velocities"] ++
    rejectionLines r.rejected ++ [
    s!"Atom map: {r.census.assigned} assigned, {r.census.unassigned} unassigned",
    s!"Results saved to: {path}"]

/-- The experiment that the `run` command asks for. -/
def planOf (c : Config) (o : RunOptions) : Except String Plan :=
  (applyOptions c o).map Plan.ofConfig

/-- The report of the `run` command. -/
def runReport (c : Config) (o : RunOptions) (fallback : RandomStream) : Ending Report :=
  match planOf c o with
  | .error message => .failed message
  | .ok plan =>
    match Experiment.run plan (streamOf plan.config.seed fallback) with
    | .error e => endingOfError e
    | .ok report => .done report

/-- The ending of the `decompose` command. -/
def decompose (c : Config) (o : DecomposeOptions) (fallback : RandomStream) :
    Ending (List String) :=
  match decomposeLines c o fallback with
  | .error e => endingOfFailure e
  | .ok lines => .done lines

end PatchDynamics.CommandLine
