/-!
# JSON numerals

A JSON number as it is written: a sign, digits before the point, digits after it, an exponent. What
it *means* depends on who asks:

* `word?` — an unsigned 64-bit integer: no sign, no point, no exponent;
* `float?` — a double-precision number, read with a 64-bit significand.

Reading a double takes digits into the significand while it fits in 64 bits. The digits before the
point that do not fit count as powers of ten, the digits after the point end at the first one that
does not fit. The significand is then multiplied or divided once by a power of ten (more than once
only below `10 ^ -308`). The result can differ from the nearest double in the last bit; it is exact
whenever the significand is below `2 ^ 53` and the power at most `10 ^ 22`.
-/

namespace PatchDynamics.Json

/-- A number as it is written in JSON. Digits are natural numbers below ten, first digit first. -/
structure Numeral where
  /-- whether a minus sign stands in front -/
  negative : Bool
  /-- the digits before the point -/
  whole : List Nat
  /-- the digits after the point, none when there is no point -/
  fraction : List Nat
  /-- the exponent, if one is written -/
  exponent : Option Int
  deriving DecidableEq, Inhabited, Repr

namespace Numeral

/-- The value of a digit list. -/
def digitsValue (ds : List Nat) : Nat := ds.foldl (fun n d => n * 10 + d) 0

/-- The digits of a natural number. -/
def digitsOf (n : Nat) : List Nat := (toString n).toList.map fun c => c.toNat - '0'.toNat

/-- The text of a digit list. -/
def digitsText (ds : List Nat) : String :=
  String.ofList (ds.map fun d => Char.ofNat (d + '0'.toNat))

/-- The numeral of a natural number. -/
def ofNat (n : Nat) : Numeral := ⟨false, digitsOf n, [], none⟩

/-- The numeral as text. An exponent is written with its sign. -/
def text (n : Numeral) : String :=
  let sign := if n.negative then "-" else ""
  let point := if n.fraction.isEmpty then "" else "." ++ digitsText n.fraction
  let power := match n.exponent with
    | none => ""
    | some e => (if e < 0 then "e-" else "e+") ++ toString e.natAbs
  sign ++ digitsText n.whole ++ point ++ power

/-- The unsigned 64-bit integer that the numeral writes without point, exponent or sign. -/
def word? (n : Numeral) : Option Nat :=
  if n.negative || !n.fraction.isEmpty || n.exponent.isSome then none
  else
    let v := digitsValue n.whole
    if v < UInt64.size then some v else none

/-! ## Doubles -/

/-- Takes digits into a significand while it stays a 64-bit word; the significand, the number of
digits taken, and the number of digits left over. -/
def takeDigits : Nat → Nat → List Nat → Nat × Nat × Nat
  | significand, taken, [] => (significand, taken, 0)
  | significand, taken, d :: ds =>
    if significand * 10 + d < UInt64.size then takeDigits (significand * 10 + d) (taken + 1) ds
    else (significand, taken, ds.length + 1)

/-- `10 ^ k` as a double, exact up to `k = 22` and the nearest double up to `k = 308`. -/
def powerOfTen (k : Nat) : Float := Float.ofScientific 1 false k

/-- The significand times `10 ^ exponent`, in double arithmetic: none when it is too large. Each
round divides by `10 ^ 308` until the rest of the exponent is at most that; `rounds` bounds their
number. -/
def scale (rounds : Nat) (f : Float) (exponent : Int) : Option Float :=
  if exponent.natAbs ≤ 308 then
    if exponent ≥ 0 then
      let product := f * powerOfTen exponent.natAbs
      if product.isInf then none else some product
    else some (f / powerOfTen exponent.natAbs)
  else if f == 0 then some f
  else if exponent ≥ 0 then none
  else match rounds with
    | 0 => some 0
    | rounds + 1 => scale rounds (f / powerOfTen 308) (exponent + 308)

/-- The largest exponent that is read exactly. A larger one decides the value by its sign alone. -/
def exponentBound : Nat := 2147483647

/-- The double that the numeral writes: none when it is too large for one. -/
def float? (n : Numeral) : Option Float :=
  let (whole, _, skipped) := takeDigits 0 0 n.whole
  let (significand, places, _) := takeDigits whole 0 n.fraction
  let written := n.exponent.getD 0
  let size :=
    if written.natAbs ≤ exponentBound then
      scale 4 (UInt64.ofNat significand).toFloat ((skipped : Int) - places + written)
    else if significand ≠ 0 && written > 0 then none
    else some 0
  size.map fun f => if n.negative then -f else f

end Numeral

end PatchDynamics.Json
