import PatchDynamics.Json

/-!
# Writing JSON

Two forms of the same tree: `compact` without blanks, and `pretty` with one member or item per line,
two blanks of indentation for each level, and `[]` or empty braces where there is nothing inside. In
strings the quote, the backslash and the control characters are escaped, all else stands as it is.
-/

namespace PatchDynamics.Json

namespace Printer

/-- A digit of base sixteen. -/
def hexDigit (n : Nat) : Char := (Nat.digitChar n)

/-- One character inside a string. -/
def escape (c : Char) : String :=
  match c with
  | '"' => "\\\""
  | '\\' => "\\\\"
  | '\x08' => "\\b"
  | '\x0c' => "\\f"
  | '\n' => "\\n"
  | '\r' => "\\r"
  | '\t' => "\\t"
  | c =>
    if c.toNat < 32 then
      "\\u00" ++ String.ofList [hexDigit (c.toNat / 16), hexDigit (c.toNat % 16)]
    else String.singleton c

/-- A string in quotes. -/
def quoted (s : String) : String := "\"" ++ String.join (s.toList.map escape) ++ "\""

/-- An opening brace. -/
def openBrace : String := "\x7b"

/-- A closing brace. -/
def closeBrace : String := "\x7d"

/-- A line break and the indentation of a level. -/
def newline (level : Nat) : String := "\n" ++ "".pushn ' ' (2 * level)

end Printer

open Printer

mutual

/-- The tree without blanks. -/
def compact : Json → String
  | .null => "null"
  | .bool b => if b then "true" else "false"
  | .number n => n.text
  | .string s => quoted (s.getD "")
  | .array items => "[" ++ ",".intercalate (compactItems items) ++ "]"
  | .object members => openBrace ++ ",".intercalate (compactMembers members) ++ closeBrace

/-- The texts of items without blanks. -/
def compactItems : List Json → List String
  | [] => []
  | j :: js => compact j :: compactItems js

/-- The texts of members without blanks. -/
def compactMembers : List (Option String × Json) → List String
  | [] => []
  | (key, j) :: rest => (quoted (key.getD "") ++ ":" ++ compact j) :: compactMembers rest

end

mutual

/-- The tree with one member or item per line, its first line at the given level. -/
def prettyAt : Nat → Json → String
  | level, .array (j :: js) =>
    "[" ++ ",".intercalate (prettyItems (level + 1) (j :: js)) ++ newline level ++ "]"
  | level, .object (m :: ms) =>
    openBrace ++ ",".intercalate (prettyMembers (level + 1) (m :: ms)) ++ newline level ++
      closeBrace
  | _, .null => "null"
  | _, .bool b => if b then "true" else "false"
  | _, .number n => n.text
  | _, .string s => quoted (s.getD "")
  | _, .array [] => "[]"
  | _, .object [] => openBrace ++ closeBrace

/-- Items on lines of their own. -/
def prettyItems : Nat → List Json → List String
  | _, [] => []
  | level, j :: js => (newline level ++ prettyAt level j) :: prettyItems level js

/-- Members on lines of their own. -/
def prettyMembers : Nat → List (Option String × Json) → List String
  | _, [] => []
  | level, (key, j) :: rest =>
    (newline level ++ quoted (key.getD "") ++ ": " ++ prettyAt level j) :: prettyMembers level rest

end

/-- The tree with one member or item per line. -/
def pretty (j : Json) : String := prettyAt 0 j

end PatchDynamics.Json
