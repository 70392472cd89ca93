import PatchDynamics.Json.Numeral

/-!
# JSON trees

A tree keeps what a strict reader saw: numerals as they were written, members of an object in their
order and with repetitions. A string may hold an escape that names no character (one half of a
pair); such a string is kept as *unreadable*, which only matters to those who ask for its text.

The second half of the module asks a tree for a value of a given type. The rules are the same
everywhere:

* a record is an object, whose unknown members are ignored and whose known ones may not repeat, or
  an array of the field values in the order of declaration;
* a choice among names is the name, or an object with that name as only member and the value `null`.
-/

namespace PatchDynamics

/-- A JSON tree. -/
inductive Json where
  /-- `null` -/
  | null
  /-- `true` or `false` -/
  | bool (b : Bool)
  /-- a number as it is written -/
  | number (n : Json.Numeral)
  /-- a string; none if an escape in it names no character -/
  | string (s : Option String)
  /-- an array -/
  | array (items : List Json)
  /-- an object: its members in order, a key being none if it is unreadable -/
  | object (members : List (Option String × Json))
  deriving Inhabited

namespace Json

/-! ## Building -/

/-- The tree of a string. -/
def ofString (s : String) : Json := .string (some s)

/-- The tree of a natural number. -/
def ofNat (n : Nat) : Json := .number (Numeral.ofNat n)

/-- The tree of an object with readable keys. -/
def record (members : List (String × Json)) : Json :=
  .object (members.map fun m => (some m.1, m.2))

/-! ## Asking -/

/-- The unsigned 64-bit integer. -/
def word? : Json → Option Nat
  | .number n => n.word?
  | _ => none

/-- The unsigned 32-bit integer. -/
def word32? (j : Json) : Option UInt32 :=
  match j.word? with
  | some n => if n < UInt32.size then some (UInt32.ofNat n) else none
  | none => none

/-- The double. -/
def float? : Json → Option Float
  | .number n => n.float?
  | _ => none

/-- The truth value. -/
def bool? : Json → Option Bool
  | .bool b => some b
  | _ => none

/-- The text of a readable string. -/
def string? : Json → Option String
  | .string s => s
  | _ => none

/-- The items of an array. -/
def array? : Json → Option (List Json)
  | .array items => some items
  | _ => none

/-- The first member with this key. -/
def member? (key : String) : Json → Option Json
  | .object members => (members.find? fun m => m.1 = some key).map Prod.snd
  | _ => none

/-- A list whose items are all of one type. -/
def list? {α : Type} (item? : Json → Option α) (j : Json) : Option (List α) :=
  j.array?.bind fun items => items.mapM item?

/-- One of several names. -/
def choice? {α : Type} (choices : List (String × α)) : Json → Option α
  | .string (some s) => choices.lookup s
  | .object [(some s, .null)] => choices.lookup s
  | _ => none

/-- The values of a record's fields, none for a field that is not given. -/
def fields? (names : List String) : Json → Option (List (Option Json))
  | .object members =>
    let keys := members.map Prod.fst
    if keys.contains none || names.any (fun name => 1 < keys.count (some name)) then none
    else some (names.map fun name => (members.find? fun m => m.1 = some name).map Prod.snd)
  | .array items =>
    if names.length < items.length then none
    else some (items.map some ++ List.replicate (names.length - items.length) none)
  | _ => none

/-- A field that has to be given. -/
def required {α : Type} (read : Json → Option α) : Option Json → Option α
  | some j => read j
  | none => none

/-- A field that may be left out. -/
def optional {α : Type} (absent : α) (read : Json → Option α) : Option Json → Option α
  | some j => read j
  | none => some absent

end Json

end PatchDynamics
