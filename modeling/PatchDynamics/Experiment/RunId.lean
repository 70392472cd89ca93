/-!
# Run identifiers

Every run has an identifier of 128 bits. It is written as thirty-two digits of base sixteen in five
groups with hyphens between them, and read in that form, without the hyphens, in braces, or behind
`urn:uuid:`, whose letters may have either case.
-/

namespace PatchDynamics.Experiment

/-- The identifier of a run: thirty-two digits of base sixteen, in lower case. -/
structure RunId where
  /-- the digits -/
  digits : List Char
  deriving DecidableEq, Inhabited, Repr

namespace RunId

/-- A digit of base sixteen. -/
def isHex (c : Char) : Bool :=
  c.isDigit || ('a' ≤ c && c ≤ 'f') || ('A' ≤ c && c ≤ 'F')

/-- The sizes of the groups. -/
def groups : List Nat := [8, 4, 4, 4, 12]

/-- The digits of the groups, a hyphen between each two. -/
def join : List Nat → List Char → List Char
  | [], _ => []
  | [size], ds => ds.take size
  | size :: sizes, ds => ds.take size ++ '-' :: join sizes (ds.drop size)

/-- The identifier of thirty-two digits. -/
def ofDigits? (cs : List Char) : Option RunId :=
  if cs.length = 32 ∧ cs.all isHex then some ⟨cs.map Char.toLower⟩ else none

/-- The identifier in groups with hyphens. -/
def ofGroups? (cs : List Char) : Option RunId :=
  let ds := cs.filter (· ≠ '-')
  if join groups ds = cs then ofDigits? ds else none

/-- The name space that may stand in front of the groups. -/
def nameSpace : List Char := "urn:uuid:".toList

/-- The identifier that a text writes. -/
def parse? (text : String) : Option RunId :=
  let cs := text.toList
  if (cs.take nameSpace.length).map Char.toLower = nameSpace then
    ofGroups? (cs.drop nameSpace.length)
  else match cs with
    | '\x7b' :: rest =>
      if rest.getLast? = some '\x7d' then ofGroups? rest.dropLast else none
    | _ => if cs.length = 32 then ofDigits? cs else ofGroups? cs

/-- The identifier as text. -/
def text (r : RunId) : String := String.ofList (join groups r.digits)

/-- The identifier made of sixteen random bytes: the version and the variant of a random identifier
replace six of the bits. -/
def ofBytes (bytes : List UInt8) : RunId :=
  let marked := bytes.mapIdx fun i b =>
    if i = 6 then (b &&& 0x0f) ||| 0x40 else if i = 8 then (b &&& 0x3f) ||| 0x80 else b
  ⟨marked.flatMap fun b => [Nat.digitChar (b.toNat / 16), Nat.digitChar (b.toNat % 16)]⟩

end RunId

end PatchDynamics.Experiment
