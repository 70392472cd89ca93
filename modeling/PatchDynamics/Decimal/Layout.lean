import PatchDynamics.Decimal.Shortest
import PatchDynamics.Json.Numeral

/-!
# Doubles as text

The four ways in which doubles appear in what this program writes:

* `plain` — all digits of the shortest decimal in positional notation, however many zeros that
  takes;
* `fixed` — a given number of places after the point;
* `scientific` — one digit before the point, a given number after it, and a power of ten;
* `saved` — the shortest decimal as a JSON numeral: positional with at least one place between
  `1e-5` and `1e16`, otherwise with a signed exponent.

`fixed` and `scientific` round the exact binary value, a half going to the even digit.
-/

namespace PatchDynamics.Decimal

/-- A minus sign where one is due. -/
def signText (negative : Bool) : String := if negative then "-" else ""

/-- The text of an infinity. -/
def infinityText (negative : Bool) : String := signText negative ++ "inf"

/-- The text of a value that is no number. -/
def nanText : String := "NaN"

/-- `n` with at least `width` digits, zeros in front. -/
def padded (width n : Nat) : String :=
  let digits := digitsText n
  "".pushn '0' (width - digits.length) ++ digits

/-- `n / 10 ^ places` with that many places; no point when there are none. -/
def withPlaces (n places : Nat) : String :=
  if places = 0 then digitsText n
  else digitsText (n / tenTo places) ++ "." ++ padded places (n % tenTo places)

/-- `d · 10 ^ k` in positional notation, without superfluous places. -/
def positional (d : Nat) (k : Int) : String :=
  if k ≥ 0 then digitsText (d * tenTo k.toNat) else withPlaces d (-k).toNat

/-- All digits of the shortest decimal, in positional notation. -/
def plain (x : Float) : String :=
  match valueOf x with
  | .nan => nanText
  | .infinity negative => infinityText negative
  | .finite negative 0 _ _ => signText negative ++ "0"
  | .finite negative m q boundary =>
    let (d, k) := shortest m q boundary
    signText negative ++ positional d k

/-- The value with `places` places after the point. -/
def fixed (places : Nat) (x : Float) : String :=
  match valueOf x with
  | .nan => nanText
  | .infinity negative => infinityText negative
  | .finite negative m q _ =>
    let (n, d) := quotient m q places
    signText negative ++ withPlaces (roundHalfEven n d) places

/-- The largest `e` with `10 ^ e ≤ n / d`, for positive `n / d`, starting from a guess that is not
too small; `steps` bounds how far the guess may be off. -/
def exponentFrom (n d : Nat) : Nat → Int → Int
  | 0, e => e
  | steps + 1, e =>
    if d * tenTo e.toNat ≤ n * tenTo (-e).toNat then e else exponentFrom n d steps (e - 1)

/-- One digit before the point, `places` after it, and the power of ten. -/
def scientific (places : Nat) (x : Float) : String :=
  match valueOf x with
  | .nan => nanText
  | .infinity negative => infinityText negative
  | .finite negative 0 _ _ => signText negative ++ withPlaces 0 places ++ "e0"
  | .finite negative m q _ =>
    let (n, d) := quotient m q 0
    let e := exponentFrom n d 8 (gridAbove m q)
    let (n', d') := quotient m q ((places : Int) - e)
    let digits := roundHalfEven n' d'
    let (digits, e) := if digits < tenTo (places + 1) then (digits, e) else (digits / 10, e + 1)
    signText negative ++ withPlaces digits places ++ "e" ++ signText (e < 0) ++ digitsText e.natAbs

/-! ## Saved numbers -/

/-- The digits of `n` behind `width` places filled with zeros. -/
def paddedDigits (width n : Nat) : List Nat :=
  let digits := Json.Numeral.digitsOf n
  List.replicate (width - digits.length) 0 ++ digits

/-- `d · 10 ^ k` as a numeral, `d` without a zero at its end. -/
def savedNumeral (negative : Bool) (d : Nat) (k : Int) : Json.Numeral :=
  let digits := Json.Numeral.digitsOf d
  -- the place of the leading digit: the value lies between its power of ten and the next
  let top : Int := (digits.length : Int) - 1 + k
  if top < -5 ∨ 16 ≤ top then ⟨negative, digits.take 1, digits.drop 1, some top⟩
  else if k ≥ 0 then ⟨negative, digits ++ List.replicate k.toNat 0, [0], none⟩
  else
    let places := (-k).toNat
    let whole := Json.Numeral.digitsOf (d / tenTo places)
    ⟨negative, whole, paddedDigits places (d % tenTo places), none⟩

/-- The shortest numeral that reads back as the double: none for an infinity and for NaN. -/
def saved (x : Float) : Option Json.Numeral :=
  match valueOf x with
  | .nan | .infinity _ => none
  | .finite negative 0 _ _ => some ⟨negative, [0], [0], none⟩
  | .finite negative m q boundary =>
    let (d, k) := shortest m q boundary
    some (savedNumeral negative d k)

end PatchDynamics.Decimal
