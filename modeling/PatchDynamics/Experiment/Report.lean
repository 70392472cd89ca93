import PatchDynamics.Directory
import PatchDynamics.Experiment.Config
import PatchDynamics.Experiment.RunId
import PatchDynamics.Experiment.Timestamp
import PatchDynamics.Json.Printer

/-!
# Reports

What an experiment measured: one record for each step, one for each collected frame, the refused
slices and the final count of the directory. The numbers that sum a report up are functions of it. A
**record** is a report with an identifier and the times of the run; it is what goes into a file and
comes back.
-/

namespace PatchDynamics.Experiment

/-- What one step measured. -/
structure StepMetrics where
  /-- the step -/
  step : Nat
  /-- particles that changed patch before the step -/
  migrations : Nat
  /-- particles that were in no patch before the step -/
  unassigned : Nat
  /-- kinetic energy after the step -/
  kineticEnergy : Float
  /-- momentum after the step -/
  momentum : Vec3
  /-- the largest force on a particle -/
  maxForce : Float
  /-- pairs with a force other than zero -/
  interacting : Nat
  /-- milliseconds that the step took -/
  duration : Nat
  deriving Inhabited

/-- What is kept of a collected frame. -/
structure FrameSummary where
  /-- the quantity -/
  collection : String
  /-- the sequence number -/
  seq : Nat
  /-- the number of particles -/
  atoms : Nat
  deriving DecidableEq, Inhabited, Repr

/-- What an experiment measured. -/
structure Report where
  /-- the parameters -/
  config : Config
  /-- one record for each step -/
  steps : List StepMetrics
  /-- the collected frames -/
  frames : List FrameSummary
  /-- the refused slices, each with its reason -/
  rejected : List String
  /-- the directory at the end -/
  census : Census
  deriving Inhabited

/-- The greater of two numbers, one that is no number losing. -/
def greater (a b : Float) : Float :=
  if a.isNaN then b else if b.isNaN then a else if a < b then b else a

namespace Report

/-- Particles that changed patch, over all steps. The sum is a 64-bit word. -/
def totalMigrations (r : Report) : Except Failure Nat :=
  Grid.checked (r.steps.foldl (fun sum s => sum + s.migrations) 0)

/-- The kinetic energy after the last step, zero without steps. -/
def finalKineticEnergy (r : Report) : Float :=
  match r.steps.getLast? with
  | none => 0
  | some s => s.kineticEnergy

/-- The largest change of a momentum component against the first step. -/
def momentumDrift (r : Report) : Float :=
  match r.steps.head? with
  | none => 0
  | some first =>
    r.steps.foldl (fun drift s =>
      let d := s.momentum - first.momentum
      greater (greater (greater drift d.x.abs) d.y.abs) d.z.abs) 0

/-- The number of collected frames of a quantity. -/
def framesOf (r : Report) (collection : String) : Nat :=
  (r.frames.filter fun f => f.collection = collection).length

end Report

/-! ## Records -/

/-- A report with an identifier and the times of its run. -/
structure Record where
  /-- the run -/
  id : RunId
  /-- when the run started -/
  started : Timestamp
  /-- when the run ended -/
  ended : Timestamp
  /-- what was measured -/
  report : Report
  deriving Inhabited

namespace Record

/-! ### Writing -/

/-- A double. One that is not finite has no numeral and is written as `null`. -/
def ofFloat (x : Float) : Json :=
  match Decimal.saved x with
  | some n => .number n
  | none => .null

/-- The three components. -/
def ofVec3 (v : Vec3) : Json := .array [ofFloat v.x, ofFloat v.y, ofFloat v.z]

/-- The parameters. -/
def ofConfig (c : Config) : Json :=
  .record [
    ("grid", .ofNat c.grid),
    ("particles", .ofNat c.particles),
    ("steps", .ofNat c.steps),
    ("migration_period", .ofNat c.migrationPeriod),
    ("output_period", .ofNat c.outputPeriod),
    ("dt", ofFloat c.dt),
    ("half_width", ofFloat c.halfWidth),
    ("spring_constant", ofFloat c.springConstant),
    ("cutoff", ofFloat c.cutoff),
    ("max_velocity", ofFloat c.maxVelocity),
    ("averaged_positions", .bool c.averaged),
    ("precision", .ofString c.precision.tag),
    ("seed", match c.seed with
      | none => .null
      | some n => .ofNat n)]

/-- One step. -/
def ofStep (s : StepMetrics) : Json :=
  .record [
    ("step", .ofNat s.step),
    ("migrations", .ofNat s.migrations),
    ("unassigned", .ofNat s.unassigned),
    ("kinetic_energy", ofFloat s.kineticEnergy),
    ("momentum", ofVec3 s.momentum),
    ("max_force", ofFloat s.maxForce),
    ("pairs_interacting", .ofNat s.interacting),
    ("duration_ms", .ofNat s.duration)]

/-- One frame. -/
def ofFrame (f : FrameSummary) : Json :=
  .record [
    ("collection", .ofString f.collection),
    ("seq", .ofNat f.seq),
    ("atoms", .ofNat f.atoms)]

/-- A count of the directory. -/
def ofCensus (c : Census) : Json :=
  .record [
    ("capacity", .ofNat c.capacity),
    ("assigned", .ofNat c.assigned),
    ("unassigned", .ofNat c.unassigned),
    ("cleared", .bool c.cleared)]

/-- The record as a tree. -/
def toJson (r : Record) : Json :=
  .record [
    ("run_id", .ofString r.id.text),
    ("config", ofConfig r.report.config),
    ("started_at", .ofString r.started.text),
    ("ended_at", .ofString r.ended.text),
    ("steps", .array (r.report.steps.map ofStep)),
    ("frames", .array (r.report.frames.map ofFrame)),
    ("rejected_contributions", .array (r.report.rejected.map Json.ofString)),
    ("map_check", ofCensus r.report.census)]

/-- The text of the file that keeps the record. -/
def save (r : Record) : String := r.toJson.pretty

/-! ### Reading -/

/-- One step. -/
def step? (j : Json) : Option StepMetrics :=
  match j.fields? ["step", "migrations", "unassigned", "kinetic_energy", "momentum", "max_force",
      "pairs_interacting", "duration_ms"] with
  | some [step, migrations, unassigned, kineticEnergy, momentum, maxForce, interacting,
      duration] => do
    let step ← Json.required Json.word? step
    let migrations ← Json.required Json.word? migrations
    let unassigned ← Json.required Json.word? unassigned
    let kineticEnergy ← Json.required Json.float? kineticEnergy
    let momentum ← Json.required Vec3.ofJson? momentum
    let maxForce ← Json.required Json.float? maxForce
    let interacting ← Json.required Json.word? interacting
    let duration ← Json.required Json.word? duration
    return ⟨step, migrations, unassigned, kineticEnergy, momentum, maxForce, interacting, duration⟩
  | _ => none

/-- One frame. -/
def frame? (j : Json) : Option FrameSummary :=
  match j.fields? ["collection", "seq", "atoms"] with
  | some [collection, seq, atoms] => do
    let collection ← Json.required Json.string? collection
    let seq ← Json.required Json.word? seq
    let atoms ← Json.required Json.word? atoms
    return ⟨collection, seq, atoms⟩
  | _ => none

/-- A record written as JSON. -/
def ofJson? (j : Json) : Option Record :=
  match j.fields? ["run_id", "config", "started_at", "ended_at", "steps", "frames",
      "rejected_contributions", "map_check"] with
  | some [id, config, started, ended, steps, frames, rejected, census] => do
    let id ← Json.required (fun j => j.string?.bind RunId.parse?) id
    let config ← Json.required Config.ofJson? config
    let started ← Json.required (fun j => j.string?.bind Timestamp.parse?) started
    let ended ← Json.required (fun j => j.string?.bind Timestamp.parse?) ended
    let steps ← Json.required (Json.list? step?) steps
    let frames ← Json.required (Json.list? frame?) frames
    let rejected ← Json.required (Json.list? Json.string?) rejected
    let census ← Json.required Census.ofJson? census
    return ⟨id, started, ended, ⟨config, steps, frames, rejected, census⟩⟩
  | _ => none

/-- The record that a text writes. -/
def load? (text : String) : Option Record := (Json.parse? text).bind ofJson?

/-- Whether the record comes back from its file. -/
def reloads (r : Record) : Bool := (load? r.save).isSome

end Record

/-- Whether a report comes back from the file of its record; identifier and times always do. -/
def Report.reloads (r : Report) : Bool :=
  let time := Timestamp.ofNanoseconds 0
  Record.reloads ⟨RunId.ofBytes (List.replicate 16 0), time, time, r⟩

/-! ## Durations -/

/-- Milliseconds in running text: milliseconds below a second, tenths of seconds below a minute,
otherwise minutes and whole seconds. -/
def durationText (ms : Nat) : String :=
  if ms < 1000 then s!"{ms}ms"
  else if ms < 60000 then s!"{Decimal.fixed 1 (Rounding.ofWord ms / 1000)}s"
  else s!"{ms / 60000}m{ms % 60000 / 1000}s"

end PatchDynamics.Experiment
