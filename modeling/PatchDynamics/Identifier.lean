/-!
# Identifiers

The three kinds of number that name things here:

* a **particle** is named by a 32-bit number that it keeps for life;
* a **patch** is one region of space;
* a **compute** is one force evaluation that sits on the consumer side of the boxes.

Patches and computes are both numbered by 32-bit words, so each has a type of its own and the two
cannot be mixed up.
-/

namespace PatchDynamics

/-- The permanent number of a particle. -/
abbrev ParticleId := UInt32

/-- The number of a patch. -/
structure PatchId where
  /-- the number itself -/
  number : UInt32
  deriving DecidableEq, Inhabited, Repr

namespace PatchId

/-- The decimal digits of the patch number. -/
def text (p : PatchId) : String := toString p.number.toNat

/-- The patch number that no patch may carry when it enters particles into a directory. -/
def reserved : PatchId := ⟨4294967295⟩

/-- Patches in the order of their numbers. -/
def le (p q : PatchId) : Bool := p.number ≤ q.number

end PatchId

/-- The number of a compute. -/
structure ComputeId where
  /-- the number itself -/
  number : UInt32
  deriving DecidableEq, Hashable, Inhabited, Repr

namespace ComputeId

/-- The decimal digits of the compute number. -/
def text (c : ComputeId) : String := toString c.number.toNat

end ComputeId

end PatchDynamics
