import PatchDynamics.Json

/-!
# Settings of an assembly

How large the directory is, how many patches make a frame, whether patches publish averaged
positions, and how many delivered frames are remembered. Settings may be written as JSON; a setting
that is left out keeps its default.
-/

namespace PatchDynamics

/-- The settings of an assembly. -/
structure Settings where
  /-- particle numbers that fit the directory -/
  capacity : Nat
  /-- patches that contribute to every frame; zero stands for all patches of the assembly -/
  homePatches : Nat
  /-- whether patches publish averaged positions -/
  averaged : Bool
  /-- delivered sequence numbers remembered one by one -/
  history : Nat
  deriving DecidableEq, Inhabited, Repr

namespace Settings

/-- The settings that hold when nothing is said. -/
def default : Settings := ⟨0, 1, false, 64⟩

/-- The names of the settings in JSON, in the order of declaration. -/
def names : List String :=
  ["directory_capacity", "home_patches", "averaged_positions", "delivered_history"]

/-- Settings written as JSON. -/
def ofJson? (j : Json) : Option Settings :=
  match j.fields? names with
  | some [capacity, homes, averaged, history] => do
    let capacity ← Json.optional default.capacity Json.word? capacity
    let homePatches ← Json.optional default.homePatches Json.word? homes
    let averaged ← Json.optional default.averaged Json.bool? averaged
    let history ← Json.optional default.history Json.word? history
    return { capacity, homePatches, averaged, history }
  | _ => none

end Settings

end PatchDynamics
