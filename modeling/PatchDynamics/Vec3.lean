/-!
# Vectors

Three double-precision components, used for positions, velocities and forces alike, and the
single-precision triple that a narrowed frame carries. Every operation works component by
component, in the order `x`, `y`, `z`.
-/

namespace PatchDynamics

/-- Three double-precision components. -/
structure Vec3 where
  /-- first component -/
  x : Float
  /-- second component -/
  y : Float
  /-- third component -/
  z : Float
  deriving Inhabited

namespace Vec3

/-- The vector of three positive zeros. -/
def zero : Vec3 := ⟨0, 0, 0⟩

/-- `f` applied to each component. -/
def map (f : Float → Float) (v : Vec3) : Vec3 := ⟨f v.x, f v.y, f v.z⟩

/-- Componentwise sum. -/
def add (v w : Vec3) : Vec3 := ⟨v.x + w.x, v.y + w.y, v.z + w.z⟩

/-- Componentwise difference. -/
def sub (v w : Vec3) : Vec3 := ⟨v.x - w.x, v.y - w.y, v.z - w.z⟩

instance : Add Vec3 := ⟨add⟩
instance : Sub Vec3 := ⟨sub⟩

/-- Each component multiplied by `s` from the left. -/
def scale (s : Float) (v : Vec3) : Vec3 := ⟨s * v.x, s * v.y, s * v.z⟩

/-- The sum of the squared components, taken from left to right. -/
def squaredNorm (v : Vec3) : Float := v.x * v.x + v.y * v.y + v.z * v.z

/-- The Euclidean length. -/
def norm (v : Vec3) : Float := v.squaredNorm.sqrt

/-- Whether every component is a zero of either sign. A NaN is not a zero. -/
def isZero (v : Vec3) : Bool := v.x == 0 && v.y == 0 && v.z == 0

end Vec3

/-- Three single-precision components. -/
structure SingleVec3 where
  /-- first component -/
  x : Float32
  /-- second component -/
  y : Float32
  /-- third component -/
  z : Float32
  deriving Inhabited

namespace Vec3

/-- Each component rounded to single precision. -/
def narrow (v : Vec3) : SingleVec3 := ⟨v.x.toFloat32, v.y.toFloat32, v.z.toFloat32⟩

end Vec3

end PatchDynamics
