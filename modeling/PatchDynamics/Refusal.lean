import PatchDynamics.Identifier

/-!
# Refusals

What a directory, a box, a patch or an aggregator answers instead of doing what was asked. Two
families:

* **residency** (`unassigned`, `directoryCleared`): the particle is nowhere right now. While
  particles move between patches this is normal, and the caller asks again later;
* **protocol violations** (all others): the caller did something out of turn.

`Refusal.message` holds the wording of every refusal, and `Refusal.isViolation` tells the families
apart.
-/

namespace PatchDynamics

/-! ## Boxes as seen from outside -/

/-- What a box of a patch carries. -/
inductive BoxKind where
  /-- current positions -/
  | position
  /-- averaged positions -/
  | avgPosition
  /-- deposited forces -/
  | force
  deriving DecidableEq, Inhabited, Repr

namespace BoxKind

/-- The name of the kind in running text. -/
def words : BoxKind → String
  | .position => "position box"
  | .avgPosition => "avg position box"
  | .force => "force box"

/-- The name of the kind as a tag. -/
def tag : BoxKind → String
  | .position => "Position"
  | .avgPosition => "AvgPosition"
  | .force => "Force"

end BoxKind

/-- How consumers use a box. -/
inductive BoxMode where
  /-- consumers only read, and the owner closes the cycle -/
  | read
  /-- each registered consumer deposits once, and the last deposit closes the cycle -/
  | accumulate
  deriving DecidableEq, Inhabited, Repr

namespace BoxMode

/-- The name of the mode as a tag. -/
def tag : BoxMode → String
  | .read => "Read"
  | .accumulate => "Accumulate"

end BoxMode

/-- Which patch owns a box, and what it carries. -/
structure BoxLabel where
  /-- the owner -/
  patch : PatchId
  /-- what the box carries -/
  kind : BoxKind
  deriving DecidableEq, Inhabited, Repr

namespace BoxLabel

/-- The label in running text, such as `patch 0 force box`. -/
def words (l : BoxLabel) : String := s!"patch {l.patch.text} {l.kind.words}"

end BoxLabel

/-! ## The refusals -/

/-- The reasons for which a call is refused. -/
inductive Refusal where
  /-- the particle is in no patch -/
  | unassigned (id : ParticleId)
  /-- the directory was cleared, and nothing has been entered since -/
  | directoryCleared (id : ParticleId)
  /-- the particle number does not fit the directory -/
  | outOfRange (id : ParticleId) (capacity : Nat)
  /-- the compute holds a handle on this box already -/
  | alreadyRegistered (label : BoxLabel) (task : ComputeId)
  /-- the box is not idle -/
  | alreadyOpen (label : BoxLabel) (cycle : Nat)
  /-- the box is not open -/
  | notOpen (label : BoxLabel)
  /-- the handle was spent in this cycle already -/
  | doubleUse (label : BoxLabel) (task : ComputeId) (cycle : Nat)
  /-- the handle belongs to no live registration of this box -/
  | unknownHandle (label : BoxLabel) (task : ComputeId)
  /-- a deposit into a box that is only read -/
  | wrongMode (label : BoxLabel) (task : ComputeId)
  /-- a deposit that does not cover exactly what was published -/
  | depositLength (label : BoxLabel) (task : ComputeId) (expected got : Nat)
  /-- an owner's close of a box that closes by deposits -/
  | closedByDeposits (label : BoxLabel)
  /-- a deposit beyond the count the cycle was opened with -/
  | cycleExhausted (label : BoxLabel) (cycle : Nat)
  /-- a slice of a frame that was delivered already -/
  | alreadyDelivered (collection : String) (seq : Nat)
  /-- a slice that would start a frame behind the horizon -/
  | expired (collection : String) (seq horizon : Nat)
  /-- a slice with different numbers of particles and values -/
  | mismatch (seq ids values : Nat)
  /-- a change of membership while boxes are open -/
  | boxesOpen (patch : PatchId) (openCount : Nat)
  deriving DecidableEq, Repr

namespace Refusal

/-- The wording of a refusal. -/
def message : Refusal → String
  | .unassigned id => s!"particle {id.toNat} is not assigned to any patch"
  | .directoryCleared id =>
    s!"atom map is cleared; lookup of particle {id.toNat} refused until re-registration"
  | .outOfRange id capacity => s!"particle {id.toNat} outside atom map capacity {capacity}"
  | .alreadyRegistered label task => s!"compute {task.text} already registered on {label.words}"
  | .alreadyOpen label cycle => s!"{label.words} already open (cycle {cycle})"
  | .notOpen label => s!"{label.words} is not open"
  | .doubleUse label task cycle =>
    s!"compute {task.text} used its handle on {label.words} twice in cycle {cycle}"
  | .unknownHandle label task => s!"compute {task.text} holds no live registration on {label.words}"
  | .wrongMode label task =>
    s!"{label.words} is read-only; deposit by compute {task.text} rejected"
  | .depositLength label task expected got =>
    s!"compute {task.text} deposited {got} values on {label.words}, expected {expected}"
  | .closedByDeposits label => s!"{label.words} closes on its last deposit, not by owner call"
  | .cycleExhausted label cycle =>
    s!"{label.words} received more deposits than registered computes in cycle {cycle}"
  | .alreadyDelivered collection seq =>
    s!"sequence {seq} of {collection} already delivered; contribution rejected"
  | .expired collection seq horizon =>
    s!"sequence {seq} of {collection} is not past horizon {horizon}; contribution rejected"
  | .mismatch seq ids values =>
    s!"contribution to sequence {seq} has {ids} ids but {values} values"
  | .boxesOpen patch openCount =>
    s!"patch {patch.text} has {openCount} boxes open; membership change refused"

/-- Whether the refusal is the caller's mistake rather than a particle in flight. -/
def isViolation : Refusal → Bool
  | .unassigned _ | .directoryCleared _ => false
  | _ => true

end Refusal

end PatchDynamics
