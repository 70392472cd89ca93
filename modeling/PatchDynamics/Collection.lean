import PatchDynamics.Aggregator
import PatchDynamics.Atom

/-!
# Collections

The frames of positions and of velocities of one assembly, each with an aggregator of its own.
Frames of velocities are always in double precision and carry no cell.

A **collector** stands before a collection and takes slices as messages, one after the other. It
answers each message with at most one broadcast: the frame that the slice completed, or the refusal.
-/

namespace PatchDynamics

/-- The aggregators of one assembly. -/
structure Collection where
  /-- frames of positions -/
  positions : Aggregator
  /-- frames of velocities -/
  velocities : Aggregator
  deriving Inhabited

namespace Collection

/-- Aggregators that expect one slice from each of `homes` patches. -/
def new (homes history : Nat) : Collection :=
  ⟨Aggregator.new "positions" homes history, Aggregator.new "velocities" homes history⟩

/-- Aggregators that expect one slice from each of `homes` patches, if their logs can be
addressed. -/
def new? (homes history : Nat) : Except Failure Collection := do
  Failure.ensureAddressable (history + 1) 8
  return new homes history

/-- Hands in a slice of positions. -/
def submitPositions (c : Collection) (seq : Nat) (ids : List ParticleId) (values : List Vec3)
    (lattice : Lattice) (precision : Precision) : Except Refusal (Option Frame) × Collection :=
  let (outcome, a) := c.positions.submit seq ids values precision (some lattice)
  (outcome, { c with positions := a })

/-- Hands in the positions of atoms. -/
def submitAtoms (c : Collection) (seq : Nat) (atoms : List Atom) (lattice : Lattice)
    (precision : Precision) : Except Refusal (Option Frame) × Collection :=
  c.submitPositions seq (atoms.map Atom.id) (atoms.map Atom.position) lattice precision

/-- Hands in a slice of velocities. -/
def submitVelocities (c : Collection) (seq : Nat) (ids : List ParticleId) (values : List Vec3) :
    Except Refusal (Option Frame) × Collection :=
  let (outcome, a) := c.velocities.submit seq ids values .high none
  (outcome, { c with velocities := a })

end Collection

/-! ## Collectors -/

/-- What a slice is a slice of. -/
inductive Quantity where
  /-- positions, with the cell and the precisions of the frame -/
  | positions (lattice : Lattice) (precision : Precision)
  /-- velocities -/
  | velocities

namespace Quantity

/-- The name of the quantity. -/
def name : Quantity → String
  | .positions _ _ => "positions"
  | .velocities => "velocities"

end Quantity

/-- A message to a collector: one patch's slice of one frame. -/
structure Slice where
  /-- the sequence number of the frame -/
  seq : Nat
  /-- the patch that the slice comes from -/
  patch : PatchId
  /-- what it is a slice of -/
  quantity : Quantity
  /-- the particles -/
  ids : List ParticleId
  /-- one value for each -/
  values : List Vec3

/-- What a collector tells everybody. -/
inductive Broadcast where
  /-- a frame is complete -/
  | assembled (collection : String) (frame : Frame)
  /-- a slice was refused -/
  | rejected (seq : Nat) (patch : PatchId) (reason : Refusal)

namespace Collection

/-- Handles one message. -/
def handle (c : Collection) (s : Slice) : Option Broadcast × Collection :=
  let (outcome, c) := match s.quantity with
    | .positions lattice precision => c.submitPositions s.seq s.ids s.values lattice precision
    | .velocities => c.submitVelocities s.seq s.ids s.values
  match outcome with
  | .ok none => (none, c)
  | .ok (some frame) => (some (.assembled s.quantity.name frame), c)
  | .error r => (some (.rejected s.seq s.patch r), c)

end Collection

end PatchDynamics
