import PatchDynamics.ForceLaw
import PatchDynamics.Grid
import PatchDynamics.Assembly

/-!
# Force tasks

A force task is a registered compute. It holds a handle on the positions and a handle on the forces
of each patch it works on. In one step it retrieves the positions of all its patches, evaluates the
pair forces, and deposits one list of forces on each patch.

* A task with one patch takes each pair of its atoms once, the atom with the smaller index first.
* A task with more patches takes each atom of the first patch with each atom of the second one;
  further patches get zero forces.

The force of a pair is added to the first atom and subtracted from the second; a pair with a zero
force changes nothing and does not count as interacting.
-/

namespace PatchDynamics

/-- What a task holds of one patch. -/
structure Endpoint where
  /-- the patch -/
  patch : PatchId
  /-- the handle on its positions -/
  positions : Handle
  /-- the handle on its forces -/
  forces : Handle
  deriving Inhabited

/-- A registered compute. -/
structure ForceTask where
  /-- the compute -/
  id : ComputeId
  /-- what it holds of each of its patches -/
  endpoints : List Endpoint
  deriving Inhabited

/-- Counts of pairs. -/
structure PairCounts where
  /-- pairs that were evaluated -/
  evaluated : Nat
  /-- pairs with a force other than zero -/
  interacting : Nat
  deriving DecidableEq, Inhabited, Repr

/-! ## Evaluation -/

/-- The forces found so far on the atoms of two lists, and the counts. Within one list the second
array stays empty. -/
structure Tally where
  /-- forces on the atoms of the first list -/
  first : Array Vec3
  /-- forces on the atoms of the second list -/
  second : Array Vec3
  /-- the counts -/
  counts : PairCounts

namespace Tally

/-- Zero forces on `n` and on `m` atoms, no pair counted. -/
def zeros (n m : Nat) : Tally :=
  ⟨Array.replicate n Vec3.zero, Array.replicate m Vec3.zero, ⟨0, 0⟩⟩

/-- The tally after the pair of atoms `i < j` of one list with force `f`. -/
def within (t : Tally) (i j : Nat) (f : Vec3) : Tally :=
  match t with
  | ⟨first, second, counts⟩ =>
    if f.isZero then ⟨first, second, { counts with evaluated := counts.evaluated + 1 }⟩
    else
      ⟨(first.modify i (· + f)).modify j (· - f), second,
        ⟨counts.evaluated + 1, counts.interacting + 1⟩⟩

/-- The tally after the pair of atom `i` of the first and atom `j` of the second list with force
`f`. -/
def between (t : Tally) (i j : Nat) (f : Vec3) : Tally :=
  match t with
  | ⟨first, second, counts⟩ =>
    if f.isZero then ⟨first, second, { counts with evaluated := counts.evaluated + 1 }⟩
    else
      ⟨first.modify i (· + f), second.modify j (· - f),
        ⟨counts.evaluated + 1, counts.interacting + 1⟩⟩

end Tally

namespace ForceTask

/-- The force on the atom at `a` from the atom at `b`. -/
def forceBetween (law : ForceLaw) (grid : Grid) (a b : Vec3) : Vec3 :=
  law.pairForce (grid.minimumImage a b)

/-- The tally of atom `i` at `a` with the atoms of its own list from index `j` on. -/
def withRest (law : ForceLaw) (grid : Grid) (i : Nat) (a : Vec3) :
    Nat → List Vec3 → Tally → Tally
  | _, [], t => t
  | j, b :: rest, t => withRest law grid i a (j + 1) rest (t.within i j (forceBetween law grid a b))

/-- The tally of all pairs within one list, from the atom with index `i` on. -/
def pairsWithin (law : ForceLaw) (grid : Grid) : Nat → List Vec3 → Tally → Tally
  | _, [], t => t
  | i, a :: rest, t =>
    pairsWithin law grid (i + 1) rest (withRest law grid i a (i + 1) rest t)

/-- The tally of atom `i` at `a` with the atoms of the other list from index `j` on. -/
def withOthers (law : ForceLaw) (grid : Grid) (i : Nat) (a : Vec3) :
    Nat → List Vec3 → Tally → Tally
  | _, [], t => t
  | j, b :: rest, t =>
    withOthers law grid i a (j + 1) rest (t.between i j (forceBetween law grid a b))

/-- The tally of all pairs between two lists, from the atom with index `i` of the first one on. -/
def pairsBetween (law : ForceLaw) (grid : Grid) (others : List Vec3) :
    Nat → List Vec3 → Tally → Tally
  | _, [], t => t
  | i, a :: rest, t =>
    pairsBetween law grid others (i + 1) rest (withOthers law grid i a 0 others t)

/-- The forces on the atoms of each list of positions, and the counts. Without any list there is
nothing to index. -/
def evaluate (law : ForceLaw) (grid : Grid) :
    List (List Vec3) → Except Failure (List (List Vec3) × PairCounts)
  | [] => .error (.fault .outOfBounds)
  | [only] =>
    let t := pairsWithin law grid 0 only (Tally.zeros only.length 0)
    .ok ([t.first.toList], t.counts)
  | first :: second :: others =>
    let t := pairsBetween law grid second 0 first (Tally.zeros first.length second.length)
    .ok (t.first.toList :: t.second.toList ::
      others.map fun list => List.replicate list.length Vec3.zero, t.counts)

/-! ## Registration -/

/-- Registers a compute with the positions and the forces of one patch. -/
def registerEndpoint (task : ComputeId) (patch : PatchId) : Action Assembly Endpoint := do
  let absent := Failure.taskNamesUnknownPatch task patch
  let positions ← Assembly.onPatch patch absent fun p => p.register .position task
  let forces ← Assembly.onPatch patch absent fun p => p.register .force task
  return { patch, positions, forces }

/-- Registers a task with all its patches, in order. Registrations made before one that fails
stay. -/
def register (t : Task) : Action Assembly ForceTask := do
  let endpoints ← t.patches.mapM (registerEndpoint t.id)
  return { id := t.id, endpoints }

/-- Gives the handles on one patch back. -/
def unregisterEndpoint (e : Endpoint) : Action Assembly Unit := do
  let absent := Failure.unknownPatch e.patch
  Assembly.onPatch e.patch absent fun p => p.unregister .position e.positions
  Assembly.onPatch e.patch absent fun p => p.unregister .force e.forces

/-- Gives all handles back, patch by patch, up to the first failure. -/
def unregister (t : ForceTask) : Action Assembly Unit := t.endpoints.forM unregisterEndpoint

/-- Gives handles back while only the first `count` patches of the assembly are at hand. -/
def unregisterAmong (count : Nat) (t : ForceTask) : Action Assembly Unit := fun s =>
  let rest := s.patches.drop count
  let (outcome, s) := t.unregister { s with patches := s.patches.take count }
  (outcome, { s with patches := s.patches ++ rest })

/-! ## One step -/

/-- The positions of the atoms of one patch. -/
def retrieve (e : Endpoint) : Action Assembly (List Vec3) := do
  let absent := Failure.unknownPatch e.patch
  let atoms ← Assembly.onPatch e.patch absent fun p => p.retrievePositions e.positions
  return atoms.map Atom.position

/-- Deposits forces on one patch. -/
def deposit (channel : Channel) (e : Endpoint) (forces : List Vec3) : Action Assembly Unit :=
  Assembly.onPatch e.patch (.unknownPatch e.patch) fun p => p.deposit e.forces ⟨channel, forces⟩

/-- Retrieves the positions of all patches, evaluates the forces and deposits them, each in the
order of the patches. -/
def run (t : ForceTask) (law : ForceLaw) (grid : Grid) : Action Assembly PairCounts := do
  let positions ← t.endpoints.mapM retrieve
  let (forces, counts) ← liftExcept (evaluate law grid positions)
  (t.endpoints.zip forces).forM fun (e, list) => deposit law.channel e list
  return counts
where
  /-- An action that leaves the state alone. -/
  liftExcept {α : Type} : Except Failure α → Action Assembly α
    | .ok a => pure a
    | .error e => throw e

/-! ## Description -/

/-- The task in one line. -/
def describe (t : ForceTask) : String :=
  let patches := ", ".intercalate (t.endpoints.map fun e => s!"PatchId({e.patch.text})")
  s!"ForceTask \x7b id: ComputeId({t.id.text}), patches: [{patches}] \x7d"

end ForceTask

end PatchDynamics
