import PatchDynamics.ForceSums

/-!
# Laws of force

A law gives the force on one particle from another, from the displacement between them. It has to be
antisymmetric: exchanging the two negates the force.
-/

namespace PatchDynamics

/-- A pair force. -/
structure ForceLaw where
  /-- the name of the law -/
  name : String
  /-- the channel its forces are deposited into -/
  channel : Channel
  /-- the force on a particle, given the displacement to it from the other particle -/
  pairForce : Vec3 → Vec3

/-- A spring that pushes particles apart until they are `cutoff` away from each other. -/
structure SoftSpring where
  /-- the stiffness -/
  stiffness : Float
  /-- the distance at which the force ends -/
  cutoff : Float
  deriving Inhabited

namespace SoftSpring

/-- The push along the displacement: stiffness times what is left of the cutoff, and nothing for
coinciding particles and from the cutoff on. -/
def push (s : SoftSpring) (d : Vec3) : Vec3 :=
  let squared := d.squaredNorm
  if squared == 0 || squared ≥ s.cutoff * s.cutoff then Vec3.zero
  else
    let distance := squared.sqrt
    d.scale (s.stiffness * (s.cutoff - distance) / distance)

/-- The law of the spring. -/
def law (s : SoftSpring) : ForceLaw := ⟨"soft-spring", .nonbonded, s.push⟩

end SoftSpring

end PatchDynamics
