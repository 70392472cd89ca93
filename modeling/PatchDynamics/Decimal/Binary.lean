/-!
# Doubles as exact binary fractions

A finite double is `± m · 2 ^ q` with natural `m`. Everything that prints doubles starts from this
form, so that digits are found in exact integer arithmetic. A positive `m · 2 ^ q` is also written
as a quotient of naturals.
-/

namespace PatchDynamics.Decimal

/-- The power of two. -/
def twoTo (k : Nat) : Nat := Nat.pow 2 k

/-- The power of ten. -/
def tenTo (k : Nat) : Nat := Nat.pow 10 k

/-- What a double stands for. -/
inductive Value where
  /-- no number -/
  | nan
  /-- an infinity -/
  | infinity (negative : Bool)
  /-- `± significand · 2 ^ exponent`; `boundary` says that the next smaller magnitude is only half
  as far away as the next larger one -/
  | finite (negative : Bool) (significand : Nat) (exponent : Int) (boundary : Bool)
  deriving DecidableEq, Repr

/-- The value of a double, read off its word. -/
def valueOf (x : Float) : Value :=
  let w : Nat := x.toBits.toNat
  let negative := decide (w / twoTo 63 = 1)
  let field : Nat := w / twoTo 52 % twoTo 11
  let fraction : Nat := w % twoTo 52
  if field = 2047 then (if fraction = 0 then .infinity negative else .nan)
  else if field = 0 then .finite negative fraction (-1074) false
  else .finite negative (twoTo 52 + fraction) ((field : Int) - 1075) (fraction = 0 ∧ 1 < field)

/-- `m · 2 ^ q · 10 ^ k` as a quotient of naturals. -/
def quotient (m : Nat) (q k : Int) : Nat × Nat :=
  (m * twoTo q.toNat * tenTo k.toNat, twoTo (-q).toNat * tenTo (-k).toNat)

/-- The quotient `n / d` rounded to the nearest natural number, a half going to the even one. -/
def roundHalfEven (n d : Nat) : Nat :=
  let whole := n / d
  let twice := 2 * (n % d)
  if twice < d then whole
  else if twice = d ∧ whole % 2 = 0 then whole
  else whole + 1

/-- The decimal digits of a natural number as text. -/
def digitsText (n : Nat) : String := toString n

end PatchDynamics.Decimal
