import PatchDynamics.Atom
import PatchDynamics.Failure
import PatchDynamics.RandomStream
import PatchDynamics.Rounding

/-!
# Initial particles

Particles are placed uniformly in the cube with half edge `h`, their velocities uniformly in a
smaller cube; then the mean velocity is subtracted from each, so that the system as a whole is at
rest.

All numbers come from one random stream: for each particle three coordinates and then, unless
particles are to stand still, three velocity components. A range without a point, or one that is not
finite, is a fault as soon as a number is drawn from it.
-/

namespace PatchDynamics

/-- A particle at the start. -/
structure Particle where
  /-- the particle -/
  id : ParticleId
  /-- where it is -/
  position : Vec3
  /-- how it moves -/
  velocity : Vec3
  deriving Inhabited

/-- What to generate. -/
structure ParticleSpec where
  /-- how many particles -/
  count : Nat
  /-- half the edge of the cube -/
  halfWidth : Float
  /-- the largest velocity component before the mean is subtracted; none is drawn unless it is
  positive -/
  maxVelocity : Float
  deriving Inhabited

namespace Particles

/-- Whether numbers can be drawn from `-h` up to `h`. -/
def drawable (h : Float) : Bool := decide (-h < h) && h.isFinite && (h - -h).isFinite

/-- A number from `-h` up to `h`. -/
def drawNumber (h : Float) (s : RandomStream) : Except Failure (Float × RandomStream) :=
  if drawable h then
    let (unit, s) := s.nextUnit
    .ok (unit * (h - -h) + -h, s)
  else .error (.fault .emptyRange)

/-- Three numbers from `-h` up to `h`. -/
def drawVector (h : Float) (s : RandomStream) : Except Failure (Vec3 × RandomStream) := do
  let (x, s) ← drawNumber h s
  let (y, s) ← drawNumber h s
  let (z, s) ← drawNumber h s
  return (⟨x, y, z⟩, s)

/-- The particle with this number. -/
def draw (spec : ParticleSpec) (number : Nat) (s : RandomStream) :
    Except Failure (Particle × RandomStream) := do
  let (position, s) ← drawVector spec.halfWidth s
  let (velocity, s) ←
    if spec.maxVelocity > 0 then drawVector spec.maxVelocity s else pure (Vec3.zero, s)
  return ({ id := UInt32.ofNat number, position, velocity }, s)

/-- The particles drawn before the mean is subtracted, put before those already drawn: `left` more,
the next one with the number `number`. -/
def drawAll (spec : ParticleSpec) : Nat → Nat → RandomStream → List Particle →
    Except Failure (List Particle)
  | 0, _, _, done => .ok done.reverse
  | left + 1, number, s, done =>
    match draw spec number s with
    | .error e => .error e
    | .ok (p, s) => drawAll spec left (number + 1) s (p :: done)

/-- The mean velocity, summed in the order of the particles from quotients by their number. -/
def meanVelocity (particles : List Particle) : Vec3 :=
  let n := Rounding.ofWord particles.length
  particles.foldl (fun mean p => mean + p.velocity.map (· / n)) Vec3.zero

/-- The particles with their mean velocity subtracted. -/
def atRest (particles : List Particle) : List Particle :=
  let mean := meanVelocity particles
  particles.map fun p => { p with velocity := p.velocity - mean }

/-- The room that one particle takes in a list. -/
def particleBytes : Nat := 56

/-- The particles of a specification and a stream. -/
def generate (spec : ParticleSpec) (s : RandomStream) : Except Failure (List Particle) := do
  Failure.ensureAddressable spec.count particleBytes
  let particles ← drawAll spec spec.count 0 s []
  return atRest particles

end Particles

end PatchDynamics
