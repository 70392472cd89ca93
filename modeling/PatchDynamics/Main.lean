import PatchDynamics.CommandLine
import Std.Time.DateTime.Timestamp

/-!
# The program

The host of the command line: it reads the environment and the configuration file, draws a random
key, looks at the clock before and after every step, and writes the output and the record. What is
written is decided elsewhere.
-/

namespace PatchDynamics

open PatchDynamics.Experiment
open PatchDynamics.CommandLine

/-- What a usage error shows. -/
def usageText : String :=
  "Usage: migration-experiment [--config <CONFIG>] [--verbose] <run|decompose> [OPTIONS]"

/-- The point in time that the clock shows. -/
def clock : IO Experiment.Timestamp := do
  let now ← Std.Time.Timestamp.now
  return Experiment.Timestamp.ofNanoseconds now.toNanosecondsSinceUnixEpoch.val

/-- The text of a file, none if it cannot be read. -/
def readText? (path : String) : IO (Option String) := do
  try
    return some (← IO.FS.readFile path)
  catch _ => return none

/-- A word of four bytes, lowest first. -/
def wordOfBytes (bytes : ByteArray) (start : Nat) : UInt32 :=
  let byte := fun i => (bytes[start + i]?.getD 0).toUInt32
  byte 0 ||| (byte 1 <<< 8) ||| (byte 2 <<< 16) ||| (byte 3 <<< 24)

/-- A stream of random words that nobody can repeat. -/
def freshStream : IO RandomStream := do
  let bytes ← IO.getRandomBytes 32
  return RandomStream.ofKey (Vector.ofFn fun i => wordOfBytes bytes (4 * i.val))

/-- Steps with the time that each takes. -/
def timedSteps (plan : Plan) : Nat → Nat → List StepMetrics → Run →
    IO (Except Experiment.Error (List StepMetrics × Run))
  | 0, _, done, run => return .ok (done.reverse, run)
  | left + 1, next, done, run => do
    let before ← IO.monoMsNow
    match advance plan run next with
    | .error e => return .error e
    | .ok (metrics, run) =>
      let after ← IO.monoMsNow
      timedSteps plan left (next + 1) ({ metrics with duration := after - before } :: done) run

/-- A whole experiment with the time that each step takes. -/
def timedRun (plan : Plan) (stream : RandomStream) : IO (Except Experiment.Error Report) := do
  match start plan stream with
  | .error e => return .error e
  | .ok run =>
    match ← timedSteps plan plan.config.steps 1 [] run with
    | .error e => return .error e
    | .ok (steps, run) => return finish plan steps run

/-- The wording of a record that cannot be written: the host's reason, and its number. -/
def unwritable : IO.Error → String
  | .noFileOrDirectory _ number reason | .interrupted _ number reason => told number reason
  | .alreadyExists _ number reason | .invalidArgument _ number reason
  | .permissionDenied _ number reason | .resourceExhausted _ number reason
  | .inappropriateType _ number reason | .noSuchThing _ number reason => told number reason
  | .otherError number reason | .resourceBusy number reason | .resourceVanished number reason
  | .unsupportedOperation number reason | .hardwareFault number reason
  | .unsatisfiedConstraints number reason | .illegalOperation number reason
  | .protocolError number reason | .timeExpired number reason => told number reason
  | e => toString e
where
  /-- The wording of a numbered reason. -/
  told (number : UInt32) (reason : String) : String := Path.hostMessage reason number.toNat

/-- Ends with a message. -/
def fail (message : String) : IO UInt32 := do
  IO.eprintln (errorLine message)
  return 1

/-- Prints the lines of an ending, or its message. -/
def conclude : Ending (List String) → IO UInt32
  | .done lines => do
    for line in lines do IO.println line
    return 0
  | .failed message => fail message
  | .aborted => return 101

/-- Keeps a record and prints the report. -/
def keepRecord (o : RunOptions) (record : Record) : IO UInt32 := do
  let (directory, name) := outputPath o.output (← clock).stamp
  let path := Path.join directory name
  try
    IO.FS.writeFile path record.save
  catch e => return ← fail (unwritable e)
  let elapsed := (record.ended.milliseconds - record.started.milliseconds).toNat
  match reportLines record.report record.id.text (durationText elapsed) path with
  | .error e => conclude (endingOfFailure e)
  | .ok lines => conclude (.done lines)

/-- Carries out the `run` command. -/
def performRun (c : Config) (o : RunOptions) : IO UInt32 := do
  match planOf c o with
  | .error message => fail message
  | .ok plan =>
    let started ← clock
    let id := RunId.ofBytes (← IO.getRandomBytes 16).toList
    match ← timedRun plan (streamOf plan.config.seed (← freshStream)) with
    | .error e => conclude (endingOfError e)
    | .ok report => keepRecord o ⟨id, started, ← clock, report⟩

/-- Carries out an invocation. -/
def perform (invocation : Invocation) : IO UInt32 := do
  let text ← match invocation.config with
    | none => pure none
    | some path => readText? path
  match configOf invocation.config text with
  | .error message => fail message
  | .ok c =>
    match invocation.command with
    | .run o => performRun c o
    | .decompose o => conclude (CommandLine.decompose c o (← freshStream))

end PatchDynamics

open PatchDynamics in
/-- The program. -/
def main (args : List String) : IO UInt32 := do
  match CommandLine.read args (← IO.getEnv "MIGRATION_CONFIG") with
  | .invoke invocation => PatchDynamics.perform invocation
  | .version =>
    IO.println CommandLine.versionLine
    return 0
  | .help =>
    IO.println usageText
    return 0
  | .misuse =>
    IO.eprintln usageText
    return CommandLine.misuseCode
