import PatchDynamics.Decimal.Binary

/-!
# The shortest decimal of a double

Of all decimals that read back as a given positive double, `shortest` answers the one with the
fewest digits, and of those the nearest to the double. A decimal reads back as `m · 2 ^ q` when it
lies between the midpoints to the two neighbouring doubles, the midpoints themselves counting when
`m` is even.

The search walks down the grids `10 ^ k`. A grid has a hit exactly when one of the two grid points
next to the double is one, so the first grid with a hit has the fewest digits.
-/

namespace PatchDynamics.Decimal

/-- The first hit on the grid `10 ^ k`: of the two grid points next to `m · 2 ^ q` those that read
back as it, and of two the nearer one, a tie going to the even one. -/
def hit? (m : Nat) (q : Int) (boundary : Bool) (k : Int) : Option Nat :=
  let (value, unit) := quotient (4 * m) (q - 2) (-k)
  let (below, _) := quotient (4 * m - (if boundary then 1 else 2)) (q - 2) (-k)
  let (above, _) := quotient (4 * m + 2) (q - 2) (-k)
  let reads := fun d : Nat =>
    if m % 2 = 0 then below ≤ d * unit ∧ d * unit ≤ above
    else below < d * unit ∧ d * unit < above
  let low := value / unit
  match decide (reads low), decide (reads (low + 1)) with
  | true, true => some (roundHalfEven value unit)
  | true, false => some low
  | false, true => some (low + 1)
  | false, false => none

/-- A power of ten above `m · 2 ^ q`: three tenths, rounded up, of the binary length. -/
def gridAbove (m : Nat) (q : Int) : Int := ((Nat.log2 m : Int) + 1 + q) * 30103 / 100000 + 2

/-- The first grid with a hit among `count` grids from `10 ^ k` downwards, and the hit. -/
def search (m : Nat) (q : Int) (boundary : Bool) : Nat → Int → Nat × Int
  | 0, k => (roundHalfEven (quotient m q (-k)).1 (quotient m q (-k)).2, k)
  | count + 1, k =>
    match hit? m q boundary k with
    | some d => (d, k)
    | none => search m q boundary count (k - 1)

/-- The shortest decimal `d · 10 ^ k` that reads back as the positive `m · 2 ^ q`. -/
def shortest (m : Nat) (q : Int) (boundary : Bool) : Nat × Int :=
  search m q boundary 24 (gridAbove m q)

end PatchDynamics.Decimal
