import PatchDynamics.Json

/-!
# Reading JSON

A strict reader of the JSON grammar: blanks may stand between the parts, nothing may follow the
value, a number has no superfluous leading zero, and control characters in strings must be escaped.

The reader takes characters from a list and answers the value with the characters that are left.
Each part of a value is shorter than the whole, so the number of characters bounds the depth.
-/

namespace PatchDynamics.Json.Reader

/-- The blanks between the parts of a value. -/
def isBlank (c : Char) : Bool := c = ' ' || c = '\n' || c = '\t' || c = '\r'

/-- The characters after the blanks in front. -/
def skipBlanks (cs : List Char) : List Char := cs.dropWhile isBlank

/-- The value of a digit of base sixteen. -/
def hexValue? (c : Char) : Option Nat :=
  if '0' ≤ c ∧ c ≤ '9' then some (c.toNat - '0'.toNat)
  else if 'a' ≤ c ∧ c ≤ 'f' then some (c.toNat - 'a'.toNat + 10)
  else if 'A' ≤ c ∧ c ≤ 'F' then some (c.toNat - 'A'.toNat + 10)
  else none

/-! ## Strings -/

/-- One unit of a string: a character, or one of the 16-bit units that only a pair turns into
one. -/
inductive Piece where
  /-- a character -/
  | char (c : Char)
  /-- a 16-bit unit that an escape names -/
  | unit (n : Nat)
  deriving Inhabited

/-- The character that an escape letter other than `u` names. -/
def escaped? : Char → Option Char
  | '"' => some '"'
  | '\\' => some '\\'
  | '/' => some '/'
  | 'b' => some '\x08'
  | 'f' => some '\x0c'
  | 'n' => some '\n'
  | 'r' => some '\r'
  | 't' => some '\t'
  | _ => none

/-- The pieces of a string up to its closing quote, last piece first, and what follows the quote. -/
def pieces : List Piece → List Char → Option (List Piece × List Char)
  | done, '"' :: rest => some (done, rest)
  | done, '\\' :: 'u' :: a :: b :: c :: d :: rest =>
    match hexValue? a, hexValue? b, hexValue? c, hexValue? d with
    | some p, some q, some r, some s =>
      pieces (.unit (((p * 16 + q) * 16 + r) * 16 + s) :: done) rest
    | _, _, _, _ => none
  | done, '\\' :: c :: rest =>
    match escaped? c with
    | some e => pieces (.char e :: done) rest
    | none => none
  | done, c :: rest => if c = '\\' ∨ c.toNat < 32 then none else pieces (.char c :: done) rest
  | _, [] => none

/-- The characters of the pieces, last piece first, in front of those already found: a high and a
low unit that stand together are one character; any other unit of a pair names none. -/
def characters : List Char → List Piece → Option (List Char)
  | found, [] => some found
  | found, .char c :: rest => characters (c :: found) rest
  | found, .unit low :: rest =>
    if 0xdc00 ≤ low ∧ low < 0xe000 then
      match rest with
      | .unit high :: rest' =>
        if 0xd800 ≤ high ∧ high < 0xdc00 then
          let c := Char.ofNat (0x10000 + (high - 0xd800) * 0x400 + (low - 0xdc00))
          characters (c :: found) rest'
        else none
      | _ => none
    else if 0xd800 ≤ low ∧ low < 0xdc00 then none
    else characters (Char.ofNat low :: found) rest

/-- The text of a string after its opening quote, none if it is unreadable, and what follows. -/
def stringBody (cs : List Char) : Option (Option String × List Char) :=
  (pieces [] cs).map fun (done, rest) => ((characters [] done).map String.ofList, rest)

/-! ## Numbers -/

/-- The digits in front, and what follows them. -/
def digits (cs : List Char) : List Nat × List Char :=
  ((cs.takeWhile Char.isDigit).map fun c => c.toNat - '0'.toNat, cs.dropWhile Char.isDigit)

/-- The digits after a point, if a point stands in front. -/
def fractionPart : List Char → Option (List Nat × List Char)
  | '.' :: cs =>
    match digits cs with
    | ([], _) => none
    | (ds, rest) => some (ds, rest)
  | cs => some ([], cs)

/-- The digits of an exponent after its sign. -/
def exponentDigits (negative : Bool) (cs : List Char) : Option (Option Int × List Char) :=
  match digits cs with
  | ([], _) => none
  | (ds, rest) =>
    let size : Int := Numeral.digitsValue ds
    some (some (if negative then -size else size), rest)

/-- The exponent, if one stands in front. -/
def exponentPart : List Char → Option (Option Int × List Char)
  | c :: cs =>
    if c = 'e' ∨ c = 'E' then
      match cs with
      | '+' :: rest => exponentDigits false rest
      | '-' :: rest => exponentDigits true rest
      | rest => exponentDigits false rest
    else some (none, c :: cs)
  | [] => some (none, [])

/-- A number without its sign. -/
def unsigned (negative : Bool) (cs : List Char) : Option (Json × List Char) :=
  match digits cs with
  | ([], _) => none
  | (whole, rest) =>
    if whole.length > 1 ∧ whole.head? = some 0 then none
    else
      (fractionPart rest).bind fun (fraction, rest) =>
        (exponentPart rest).map fun (exponent, rest) =>
          (.number ⟨negative, whole, fraction, exponent⟩, rest)

/-! ## Values -/

/-- What follows the given letters, if they stand in front. -/
def expect : List Char → List Char → Option (List Char)
  | [], cs => some cs
  | w :: ws, c :: cs => if w = c then expect ws cs else none
  | _ :: _, [] => none

mutual

/-- A value that starts after blanks, and what follows it. The first argument bounds the depth. -/
def value : Nat → List Char → Option (Json × List Char)
  | 0, _ => none
  | depth + 1, cs =>
    match skipBlanks cs with
    | 'n' :: rest => (expect ['u', 'l', 'l'] rest).map fun rest => (.null, rest)
    | 't' :: rest => (expect ['r', 'u', 'e'] rest).map fun rest => (.bool true, rest)
    | 'f' :: rest => (expect ['a', 'l', 's', 'e'] rest).map fun rest => (.bool false, rest)
    | '"' :: rest => (stringBody rest).map fun (s, rest) => (.string s, rest)
    | '-' :: rest => unsigned true rest
    | '[' :: rest =>
      match skipBlanks rest with
      | ']' :: rest => some (.array [], rest)
      | rest => items depth [] rest
    | '\x7b' :: rest =>
      match skipBlanks rest with
      | '\x7d' :: rest => some (.object [], rest)
      | rest => members depth [] rest
    | rest => unsigned false rest

/-- The items of an array from the next one on, last item first in `done`. -/
def items : Nat → List Json → List Char → Option (Json × List Char)
  | 0, _, _ => none
  | depth + 1, done, cs =>
    match value depth cs with
    | none => none
    | some (item, rest) =>
      match skipBlanks rest with
      | ',' :: rest => items depth (item :: done) rest
      | ']' :: rest => some (.array (item :: done).reverse, rest)
      | _ => none

/-- The members of an object from the next one on, last member first in `done`. -/
def members : Nat → List (Option String × Json) → List Char → Option (Json × List Char)
  | 0, _, _ => none
  | depth + 1, done, cs =>
    match skipBlanks cs with
    | '"' :: rest =>
      match stringBody rest with
      | none => none
      | some (key, rest) =>
        match skipBlanks rest with
        | ':' :: rest =>
          match value depth rest with
          | none => none
          | some (item, rest) =>
            match skipBlanks rest with
            | ',' :: rest => members depth ((key, item) :: done) rest
            | '\x7d' :: rest => some (.object ((key, item) :: done).reverse, rest)
            | _ => none
        | _ => none
    | _ => none

end

end Reader

/-- The tree that a text writes. -/
def parse? (text : String) : Option Json :=
  let cs := text.toList
  match Reader.value (2 * cs.length + 2) cs with
  | some (j, rest) => if (Reader.skipBlanks rest).isEmpty then some j else none
  | none => none

end PatchDynamics.Json
