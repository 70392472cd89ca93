/-!
# Rounding to integral values

Two roundings of a double-precision number to an integral one, both read off the 64-bit word:

* `integralBelow` — the largest integral value that is not larger;
* `integralNearest` — the nearest integral value, a half going away from zero.

A word holds a sign bit, an exponent field of eleven bits and a fraction of fifty-two bits. From
exponent field `1075` on every value is integral already (infinities and NaN have field `2047`).
Below `1023` the magnitude is less than one. In between, the lowest `1075 - field` bits of the
fraction hold the part after the point, and because the fields are adjacent, adding one unit to the
bits above them carries into the exponent field exactly where the value reaches the next power of
two. Both roundings keep the sign of a result that is zero.
-/

namespace PatchDynamics.Rounding

/-- The sign bit of a word, all other bits cleared. -/
def signPart (w : UInt64) : UInt64 := w &&& 0x8000000000000000

/-- The eleven bits of the exponent field. -/
def exponentField (w : UInt64) : UInt64 := (w >>> 52) &&& 0x7ff

/-- The word of one. -/
def oneWord : UInt64 := 0x3ff0000000000000

/-- The largest integral value that is not larger than `x`. -/
def integralBelow (x : Float) : Float :=
  let w := x.toBits
  let field := exponentField w
  if field ≥ 1075 then x
  else if field < 1023 then
    if signPart w = 0 || x == 0 then Float.ofBits (signPart w)
    else Float.ofBits (0x8000000000000000 ||| oneWord)
  else
    let unit : UInt64 := 1 <<< (1075 - field)
    let rest := w &&& (unit - 1)
    if rest = 0 then x
    else if signPart w = 0 then Float.ofBits (w - rest)
    else Float.ofBits (w - rest + unit)

/-- The nearest integral value to `x`; of two equally near ones, the one farther from zero. -/
def integralNearest (x : Float) : Float :=
  let w := x.toBits
  let field := exponentField w
  if field ≥ 1075 then x
  else if field < 1022 then Float.ofBits (signPart w)
  else if field = 1022 then Float.ofBits (signPart w ||| oneWord)
  else
    let unit : UInt64 := 1 <<< (1075 - field)
    let raised := w + (unit >>> 1)
    Float.ofBits (raised - (raised &&& (unit - 1)))

/-- The natural number below `2 ^ 64` that `x` holds, cut toward zero: a negative number or NaN
gives zero, and a number that is too large gives `2 ^ 64 - 1`. -/
def toWord (x : Float) : Nat := x.toUInt64.toNat

/-- The double-precision number nearest to the word `n`. -/
def ofWord (n : Nat) : Float := (UInt64.ofNat n).toFloat

end PatchDynamics.Rounding
