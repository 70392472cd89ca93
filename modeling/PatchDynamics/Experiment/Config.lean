import PatchDynamics.Decimal.Layout
import PatchDynamics.Grid
import PatchDynamics.Interchange
import PatchDynamics.Json.Reader
import PatchDynamics.Settings

/-!
# Configurations

The parameters of one experiment. A configuration may be written as JSON; a parameter that is left
out keeps its default. `validate` refuses the ones that cannot be run: a grid without cells, a
migration period of zero, a cube without extent.
-/

namespace PatchDynamics.Experiment

/-- The parameters of one experiment. -/
structure Config where
  /-- cells along each axis of the grid -/
  grid : Nat
  /-- number of particles -/
  particles : Nat
  /-- steps to run -/
  steps : Nat
  /-- steps between migrations -/
  migrationPeriod : Nat
  /-- steps between collected frames, zero for none -/
  outputPeriod : Nat
  /-- length of a time step -/
  dt : Float
  /-- half the edge of the periodic cube -/
  halfWidth : Float
  /-- stiffness of the spring between particles -/
  springConstant : Float
  /-- distance at which particles stop to interact -/
  cutoff : Float
  /-- largest component of an initial velocity -/
  maxVelocity : Float
  /-- whether averaged positions are published -/
  averaged : Bool
  /-- precision of collected positions -/
  precision : Precision
  /-- seed of the particle generator, none for a random one -/
  seed : Option Nat
  deriving Inhabited

/-- What makes a configuration unfit to run. -/
inductive Unfit where
  /-- no cells -/
  | emptyGrid
  /-- a migration period of zero -/
  | noMigrationPeriod
  /-- half an edge of zero or less -/
  | noExtent (halfWidth : Float)

namespace Unfit

/-- The wording. -/
def message : Unfit → String
  | .emptyGrid => "grid must be at least 1"
  | .noMigrationPeriod => "migration_period must be at least 1"
  | .noExtent h => s!"half_width must be positive, got {Decimal.plain h}"

end Unfit

namespace Config

/-- The parameters that hold when nothing is said. -/
def default : Config :=
  { grid := 2
    particles := 256
    steps := 50
    migrationPeriod := 5
    outputPeriod := 10
    dt := 0.005
    halfWidth := 4.0
    springConstant := 50.0
    cutoff := 1.0
    maxVelocity := 0.5
    averaged := false
    precision := .high
    seed := none }

/-! ## Derived quantities -/

/-- The first reason, if any, why the experiment cannot be run. -/
def validate (c : Config) : Except Unfit Unit :=
  if c.grid = 0 then .error .emptyGrid
  else if c.migrationPeriod = 0 then .error .noMigrationPeriod
  else if c.halfWidth ≤ 0 then .error (.noExtent c.halfWidth)
  else .ok ()

/-- The edge of the cube. -/
def edge (c : Config) : Float := 2 * c.halfWidth

/-- The number of patches. -/
def patchCount (c : Config) : Except Failure Nat := Grid.checked (c.grid * c.grid * c.grid)

/-- The settings of the assembly: every patch contributes to every frame. -/
def settings (c : Config) : Except Failure Settings := do
  let homes ← c.patchCount
  return { Settings.default with
    capacity := c.particles
    homePatches := homes
    averaged := c.averaged }

/-! ## JSON -/

/-- The names of the parameters in JSON, in the order of declaration. -/
def names : List String :=
  ["grid", "particles", "steps", "migration_period", "output_period", "dt", "half_width",
    "spring_constant", "cutoff", "max_velocity", "averaged_positions", "precision", "seed"]

/-- A seed: a 64-bit word, or `null` for none. -/
def seed? : Json → Option (Option Nat)
  | .null => some none
  | j => j.word?.map some

/-- A configuration written as JSON, given how its doubles are read. -/
def ofJsonWith? (float? : Json → Option Float) (j : Json) : Option Config :=
  match j.fields? names with
  | some [grid, particles, steps, migrationPeriod, outputPeriod, dt, halfWidth, springConstant,
      cutoff, maxVelocity, averaged, precision, seed] => do
    let grid ← Json.optional default.grid Json.word? grid
    let particles ← Json.optional default.particles Json.word? particles
    let steps ← Json.optional default.steps Json.word? steps
    let migrationPeriod ← Json.optional default.migrationPeriod Json.word? migrationPeriod
    let outputPeriod ← Json.optional default.outputPeriod Json.word? outputPeriod
    let dt ← Json.optional default.dt float? dt
    let halfWidth ← Json.optional default.halfWidth float? halfWidth
    let springConstant ← Json.optional default.springConstant float? springConstant
    let cutoff ← Json.optional default.cutoff float? cutoff
    let maxVelocity ← Json.optional default.maxVelocity float? maxVelocity
    let averaged ← Json.optional default.averaged Json.bool? averaged
    let precision ← Json.optional default.precision Precision.ofJson? precision
    let seed ← Json.optional default.seed seed? seed
    return {
      grid, particles, steps, migrationPeriod, outputPeriod, dt, halfWidth, springConstant, cutoff
      maxVelocity, averaged, precision, seed }
  | _ => none

/-- A configuration written as JSON. -/
def ofJson? (j : Json) : Option Config := ofJsonWith? Json.float? j

/-- The configuration that a text writes. -/
def parse? (text : String) : Option Config := (Json.parse? text).bind ofJson?

end Config

end PatchDynamics.Experiment
