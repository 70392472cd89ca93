import PatchDynamics.Failure
import PatchDynamics.Rounding
import PatchDynamics.Vec3

/-!
# Grids

The periodic cube with half edge `h` is cut into equal cells, `side` along each axis, one patch
each. A patch number counts the cells, first axis fastest.

* `wrap` moves a position back into the cube, and `minimumImage` takes the short way between two
  positions around its faces.
* `neighbors` are the other patches that touch a patch at a face, an edge or a corner, the cube
  closing on itself.
* `tasks` lists what has to be computed: each patch by itself, then each pair of neighbours once.

Counts and cell numbers are 64-bit words: one that does not fit is a fault. Patch numbers are the
lowest 32 bits of cell numbers.
-/

namespace PatchDynamics

/-- What one compute works on. -/
structure Task where
  /-- the compute -/
  id : ComputeId
  /-- the patches: one for interactions within a patch, two for interactions between patches -/
  patches : List PatchId
  deriving DecidableEq, Inhabited, Repr

namespace Task

/-- Whether the task stays within one patch. -/
def isSelf (t : Task) : Bool := t.patches.length = 1

end Task

/-- The cells of the periodic cube. -/
structure Grid where
  /-- cells along each axis -/
  side : Nat
  /-- half the edge of the cube -/
  halfWidth : Float
  deriving Inhabited

namespace Grid

/-- A grid with at least one cell. -/
def new (side : Nat) (halfWidth : Float) : Grid := ⟨max side 1, halfWidth⟩

/-- One above the largest 64-bit word. -/
def wordBound : Nat := UInt64.size

/-- A number that has to fit into 64 bits. -/
def checked (n : Nat) : Except Failure Nat :=
  if n < wordBound then .ok n else .error (.fault .overflow)

/-- The edge of the cube. -/
def edge (g : Grid) : Float := 2 * g.halfWidth

/-! ## Positions -/

/-- A coordinate moved into the cube. A result that rounding put on the upper face goes to the lower
one. -/
def wrapCoordinate (g : Grid) (x : Float) : Float :=
  let moved := x - g.edge * Rounding.integralBelow ((x + g.halfWidth) / g.edge)
  if moved ≥ g.halfWidth then -g.halfWidth else moved

/-- A position moved into the cube. -/
def wrap (g : Grid) (v : Vec3) : Vec3 := v.map g.wrapCoordinate

/-- A difference of coordinates, the short way around. -/
def shortest (g : Grid) (difference : Float) : Float :=
  difference - g.edge * Rounding.integralNearest (difference / g.edge)

/-- The displacement from `b` to `a`, the short way around. -/
def minimumImage (g : Grid) (a b : Vec3) : Vec3 := (a - b).map g.shortest

/-- The cell along one axis that holds a coordinate inside the cube, the last one for all that lies
beyond. -/
def cell (g : Grid) (x : Float) : Nat :=
  min (Rounding.toWord
    (Rounding.integralBelow ((x + g.halfWidth) / g.edge * Rounding.ofWord g.side))) (g.side - 1)

/-! ## Patch numbers -/

/-- The number of patches. -/
def patchCount (g : Grid) : Except Failure Nat := checked (g.side * g.side * g.side)

/-- The patches in ascending order: as many as the lowest 32 bits of their count say. -/
def patchIds (g : Grid) : Except Failure (List PatchId) := do
  let count ← g.patchCount
  return (List.range (count % UInt32.size)).map fun i => ⟨UInt32.ofNat i⟩

/-- The number of the patch at three cell numbers. -/
def patchAt (g : Grid) (x y z : Nat) : Except Failure PatchId := do
  let n ← checked (x + g.side * (y + g.side * z))
  return ⟨UInt32.ofNat n⟩

/-- The three cell numbers of a patch. -/
def coordinates (g : Grid) (p : PatchId) : Except Failure (Nat × Nat × Nat) := do
  let n := p.number.toNat
  let layer ← checked (g.side * g.side)
  return (n % g.side, n / g.side % g.side, n / layer)

/-- The patch that holds a position. -/
def patchOf (g : Grid) (v : Vec3) : Except Failure PatchId :=
  let w := g.wrap v
  g.patchAt (g.cell w.x) (g.cell w.y) (g.cell w.z)

/-! ## Neighbours and tasks -/

/-- The cell `step` away from cell `c` along one axis, the axis closing on itself. -/
def shift (g : Grid) (c : Nat) (step : Int) : Nat := (((c : Int) + step) % (g.side : Int)).toNat

/-- The twenty-seven steps to the cells around, the cell itself included. -/
def steps : List (Int × Int × Int) :=
  [-1, 0, 1].flatMap fun dz => [-1, 0, 1].flatMap fun dy => [-1, 0, 1].map fun dx => (dx, dy, dz)

/-- A list in ascending order, each entry once. -/
def ascending {α : Type} [BEq α] (le : α → α → Bool) (l : List α) : List α :=
  (l.mergeSort le).eraseReps

/-- The other patches around a patch, in ascending order. -/
def neighbors (g : Grid) (p : PatchId) : Except Failure (List PatchId) := do
  let (x, y, z) ← g.coordinates p
  let around ← steps.mapM fun (dx, dy, dz) =>
    g.patchAt (g.shift x dx) (g.shift y dy) (g.shift z dz)
  return ascending PatchId.le (around.filter (· ≠ p))

/-- Pairs of patches in ascending order, the first patch deciding before the second. -/
def pairLe (a b : PatchId × PatchId) : Bool :=
  a.1.number < b.1.number || (a.1.number = b.1.number && a.2.number ≤ b.2.number)

/-- A pair with the smaller patch first. -/
def ordered (p q : PatchId) : PatchId × PatchId := if p.le q then (p, q) else (q, p)

/-- The pairs of neighbours among the patches, each once, in ascending order. -/
def neighborPairs (g : Grid) : Except Failure (List (PatchId × PatchId)) := do
  let ids ← g.patchIds
  let pairs ← ids.mapM fun p => do
    let around ← g.neighbors p
    return around.map (ordered p)
  return ascending pairLe pairs.flatten

/-- The task of a patch by itself, whose compute has the number of the patch. -/
def selfTask (p : PatchId) : Task := ⟨⟨p.number⟩, [p]⟩

/-- The tasks of pairs, their computes numbered from `start` on. -/
def pairTasks (start : Nat) (pairs : List (PatchId × PatchId)) : List Task :=
  pairs.zipIdx.map fun (pair, i) => ⟨⟨UInt32.ofNat (start + i)⟩, [pair.1, pair.2]⟩

/-- All tasks: each patch by itself, then each pair of neighbours. The numbers of the computes and
the number after the last one are 32-bit words. -/
def tasks (g : Grid) : Except Failure (List Task) := do
  let ids ← g.patchIds
  let pairs ← g.neighborPairs
  let start := (← g.patchCount) % UInt32.size
  if pairs.isEmpty || start + pairs.length < UInt32.size then
    return ids.map selfTask ++ pairTasks start pairs
  else throw (.fault .overflow)

end Grid

end PatchDynamics
