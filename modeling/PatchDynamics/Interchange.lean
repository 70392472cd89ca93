import PatchDynamics.Atom
import PatchDynamics.Directory
import PatchDynamics.ForceSums
import PatchDynamics.Frame
import PatchDynamics.Json

/-!
# Interchange

How the values of this library are written as JSON. Every reader answers none for a tree that does
not write a value of its type.

* Kinds, modes, channels and precisions are choices among their tags.
* Patches and computes are bare 32-bit numbers.
* A vector is an array of exactly three numbers.
* Cells, atoms and counts are records.
-/

namespace PatchDynamics

/-- The members of a list by their tags. -/
def tagged {α : Type} (tag : α → String) (members : List α) : List (String × α) :=
  members.map fun a => (tag a, a)

/-- A kind of box. -/
def BoxKind.ofJson? : Json → Option BoxKind :=
  Json.choice? (tagged BoxKind.tag [.position, .avgPosition, .force])

/-- A mode of a box. -/
def BoxMode.ofJson? : Json → Option BoxMode :=
  Json.choice? (tagged BoxMode.tag [.read, .accumulate])

/-- A channel. -/
def Channel.ofJson? : Json → Option Channel :=
  Json.choice? (tagged Channel.tag [.normal, .nonbonded, .slow])

/-- A precision. -/
def Precision.ofJson? : Json → Option Precision :=
  Json.choice? (tagged Precision.tag [.low, .high, .both])

/-- A patch. -/
def PatchId.ofJson? (j : Json) : Option PatchId := j.word32?.map PatchId.mk

/-- A compute. -/
def ComputeId.ofJson? (j : Json) : Option ComputeId := j.word32?.map ComputeId.mk

/-- A vector. -/
def Vec3.ofJson? : Json → Option Vec3
  | .array [x, y, z] => do return ⟨← x.float?, ← y.float?, ← z.float?⟩
  | _ => none

/-- A periodic cell. -/
def Lattice.ofJson? (j : Json) : Option Lattice :=
  match j.fields? ["a", "b", "c", "origin"] with
  | some [a, b, c, origin] => do
    let a ← Json.required Vec3.ofJson? a
    let b ← Json.required Vec3.ofJson? b
    let c ← Json.required Vec3.ofJson? c
    let origin ← Json.required Vec3.ofJson? origin
    return ⟨a, b, c, origin⟩
  | _ => none

/-- An atom. -/
def Atom.ofJson? (j : Json) : Option Atom :=
  match j.fields? ["id", "position"] with
  | some [id, position] => do
    let id ← Json.required Json.word32? id
    let position ← Json.required Vec3.ofJson? position
    return ⟨id, position⟩
  | _ => none

/-- A count of a directory. -/
def Census.ofJson? (j : Json) : Option Census :=
  match j.fields? ["capacity", "assigned", "unassigned", "cleared"] with
  | some [capacity, assigned, unassigned, cleared] => do
    let capacity ← Json.required Json.word? capacity
    let assigned ← Json.required Json.word? assigned
    let unassigned ← Json.required Json.word? unassigned
    let cleared ← Json.required Json.bool? cleared
    return ⟨capacity, assigned, unassigned, cleared⟩
  | _ => none

end PatchDynamics
