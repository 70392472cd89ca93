import PatchDynamics.Identifier
import PatchDynamics.Vec3

/-!
# Atoms

The record of a particle that a patch publishes to its computes, and the changes that an integrator
may make to a list of them between steps.
-/

namespace PatchDynamics

/-- A particle and where it is. -/
structure Atom where
  /-- the particle -/
  id : ParticleId
  /-- its position -/
  position : Vec3
  deriving Inhabited

/-- One change of a list of atoms. An index past the end changes nothing. -/
inductive AtomEdit where
  /-- moves the atom at an index -/
  | move (index : Nat) (position : Vec3)
  /-- gives the atom at an index another number -/
  | renumber (index : Nat) (id : ParticleId)
  /-- appends an atom -/
  | push (atom : Atom)
  /-- keeps at most this many atoms -/
  | truncate (count : Nat)

namespace AtomEdit

/-- The list after one change. -/
def apply (atoms : List Atom) : AtomEdit → List Atom
  | .move i position => atoms.modify i fun a => { a with position := position }
  | .renumber i id => atoms.modify i fun a => { a with id := id }
  | .push atom => atoms ++ [atom]
  | .truncate count => atoms.take count

/-- The list after several changes in order. -/
def applyAll (edits : List AtomEdit) (atoms : List Atom) : List Atom := edits.foldl apply atoms

end AtomEdit

end PatchDynamics
