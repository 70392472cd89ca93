import PatchDynamics.Identifier
import PatchDynamics.Vec3

/-!
# Frames

A frame is one quantity of the whole system at one step: particle numbers and one value for each,
slice after slice as the slices came in. It carries the values in double precision, in single
precision or in both, and a frame of positions also the periodic cell.
-/

namespace PatchDynamics

/-- In which precisions a frame carries its values. -/
inductive Precision where
  /-- single precision -/
  | low
  /-- double precision -/
  | high
  /-- both -/
  | both
  deriving DecidableEq, Inhabited, Repr

namespace Precision

/-- Whether double-precision values are carried. -/
def wantsDouble : Precision → Bool
  | .low => false
  | .high | .both => true

/-- Whether single-precision values are carried. -/
def wantsSingle : Precision → Bool
  | .high => false
  | .low | .both => true

/-- The name of the precision as a tag. -/
def tag : Precision → String
  | .low => "low"
  | .high => "high"
  | .both => "both"

end Precision

/-- The periodic cell: three edges and an origin. -/
structure Lattice where
  /-- first edge -/
  a : Vec3
  /-- second edge -/
  b : Vec3
  /-- third edge -/
  c : Vec3
  /-- where the edges start -/
  origin : Vec3
  deriving Inhabited

namespace Lattice

/-- The cube with this edge, its edges along the axes. -/
def cube (edge : Float) : Lattice := ⟨⟨edge, 0, 0⟩, ⟨0, edge, 0⟩, ⟨0, 0, edge⟩, Vec3.zero⟩

end Lattice

/-- One quantity of the whole system at one step. -/
structure Frame where
  /-- the sequence number -/
  seq : Nat
  /-- in which precisions values are carried -/
  precision : Precision
  /-- the particles -/
  ids : List ParticleId
  /-- the values in double precision -/
  values : List Vec3
  /-- the values in single precision -/
  narrowed : List SingleVec3
  /-- the periodic cell -/
  lattice : Option Lattice
  deriving Inhabited

namespace Frame

/-- A frame without slices. -/
def start (seq : Nat) (precision : Precision) (lattice : Option Lattice) : Frame :=
  ⟨seq, precision, [], [], [], lattice⟩

/-- The number of particles. -/
def size (f : Frame) : Nat := f.ids.length

/-- The frame with one more slice, its values in the precisions that the frame carries. -/
def append (f : Frame) (ids : List ParticleId) (values : List Vec3) : Frame :=
  { f with
    ids := f.ids ++ ids
    values := if f.precision.wantsDouble then f.values ++ values else f.values
    narrowed :=
      if f.precision.wantsSingle then f.narrowed ++ values.map Vec3.narrow else f.narrowed }

@[simp] theorem ids_append (f : Frame) (ids : List ParticleId) (values : List Vec3) :
    (f.append ids values).ids = f.ids ++ ids := rfl

@[simp] theorem size_append (f : Frame) (ids : List ParticleId) (values : List Vec3) :
    (f.append ids values).size = f.size + ids.length := by
  simp [size]

end Frame

end PatchDynamics
