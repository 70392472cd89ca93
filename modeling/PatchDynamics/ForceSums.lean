import PatchDynamics.Refusal
import PatchDynamics.Vec3

/-!
# Sums of forces

Computes deposit one vector for each atom of a patch, into one of three channels. When a step's last
deposit is in, the deposits are added up channel by channel, in the order in which they are listed,
starting from zero vectors. The total force on an atom is the sum of its three channels, again from
zero. The order of every sum is fixed, so the bits of the result do not depend on who was first.
-/

namespace PatchDynamics

/-- What a deposited force belongs to. -/
inductive Channel where
  /-- bonded and other cheap forces -/
  | normal
  /-- pair forces -/
  | nonbonded
  /-- forces evaluated less often -/
  | slow
  deriving DecidableEq, Inhabited, Repr

namespace Channel

/-- The name of the channel as a tag. -/
def tag : Channel → String
  | .normal => "Normal"
  | .nonbonded => "Nonbonded"
  | .slow => "Slow"

end Channel

/-- One compute's forces on a patch in one step. -/
structure ForceDeposit where
  /-- what the forces belong to -/
  channel : Channel
  /-- one vector for each atom, in the order of the patch's list -/
  forces : List Vec3
  deriving Inhabited

/-- What computes need to know to size a deposit. -/
structure ForceFrame where
  /-- the patch -/
  patch : PatchId
  /-- the step -/
  step : Nat
  /-- the number of atoms -/
  atoms : Nat
  deriving DecidableEq, Inhabited, Repr

/-- The sums of one step, channel by channel. -/
structure ForceSums where
  /-- the step -/
  step : Nat
  /-- sums of the normal channel -/
  normal : List Vec3
  /-- sums of the nonbonded channel -/
  nonbonded : List Vec3
  /-- sums of the slow channel -/
  slow : List Vec3
  deriving Inhabited

namespace ForceSums

/-- The sums before the first step. -/
def none : ForceSums := ⟨0, [], [], []⟩

/-- Zero vectors for `atoms` atoms in each channel. -/
def zeros (step atoms : Nat) : ForceSums :=
  ⟨step, List.replicate atoms Vec3.zero, List.replicate atoms Vec3.zero,
    List.replicate atoms Vec3.zero⟩

/-- The sums of one channel. -/
def channel (s : ForceSums) : Channel → List Vec3
  | .normal => s.normal
  | .nonbonded => s.nonbonded
  | .slow => s.slow

/-- The sums of a channel after one more deposit. Entries beyond the shorter of the two lists stay
as they are. -/
def accumulate : List Vec3 → List Vec3 → List Vec3
  | sum :: sums, force :: forces => (sum + force) :: accumulate sums forces
  | sums, _ => sums

/-- The sums after one more deposit. -/
def add (s : ForceSums) (d : ForceDeposit) : ForceSums :=
  match d.channel with
  | .normal => { s with normal := accumulate s.normal d.forces }
  | .nonbonded => { s with nonbonded := accumulate s.nonbonded d.forces }
  | .slow => { s with slow := accumulate s.slow d.forces }

/-- The sums after several deposits in order. -/
def addAll (s : ForceSums) (deposits : List ForceDeposit) : ForceSums := deposits.foldl add s

/-- The total force on each atom: the three channels added to zero in the order normal, nonbonded,
slow. -/
def total (s : ForceSums) : List Vec3 :=
  List.zipWith (fun ab c => ab + c)
    (List.zipWith (fun a b => Vec3.zero + a + b) s.normal s.nonbonded) s.slow

@[simp] theorem length_accumulate (sums forces : List Vec3) :
    (accumulate sums forces).length = sums.length := by
  induction sums generalizing forces with
  | nil => rfl
  | cons sum sums ih =>
    cases forces with
    | nil => rfl
    | cons force forces => rw [accumulate, List.length_cons, List.length_cons, ih]

end ForceSums

end PatchDynamics
