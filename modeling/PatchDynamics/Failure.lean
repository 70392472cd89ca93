import PatchDynamics.Refusal

/-!
# Failures

Everything that ends an action early, in two degrees:

* a **refusal** or a patch that is not there ends the action, and the caller may go on;
* a **fault** is a broken precondition (a reserved number, arithmetic that leaves its word, a list
  that is too short, a range without points). Nothing that follows a fault is meaningful, so a host
  stops at it.

An action on a state answers an outcome *and* the state it leaves, because an action that fails half
way may have changed something.
-/

namespace PatchDynamics

/-- A broken precondition that stops the run. -/
inductive Fault where
  /-- the reserved patch number entered particles into a directory -/
  | reservedPatch
  /-- arithmetic left the 64-bit or 32-bit word it is done in -/
  | overflow
  /-- an index past the end of a list -/
  | outOfBounds
  /-- a random range without a point, or with an end that is not finite -/
  | emptyRange
  /-- a list that no address space holds -/
  | tooLarge
  deriving DecidableEq, Repr

/-- What ends an action early. -/
inductive Failure where
  /-- a part of the assembly refused -/
  | refused (reason : Refusal)
  /-- a precondition was broken -/
  | fault (fault : Fault)
  /-- a task was to be registered with a patch that is not there -/
  | taskNamesUnknownPatch (task : ComputeId) (patch : PatchId)
  /-- a handle was to be given back to a patch that is not there -/
  | unknownPatch (patch : PatchId)
  deriving DecidableEq, Repr

namespace Failure

/-- The wording of a failure. A fault has none of its own. -/
def message : Failure → String
  | .refused reason => reason.message
  | .fault _ => ""
  | .taskNamesUnknownPatch task patch => s!"task {task.text} names unknown patch {patch.text}"
  | .unknownPatch patch => s!"unknown patch {patch.text}"

/-- The bytes that one list may take at most. -/
def addressable : Nat := 9223372036854775807

/-- Refuses a list whose entries take more room than can be addressed. -/
def ensureAddressable (entries bytes : Nat) : Except Failure Unit :=
  if entries * bytes ≤ addressable then .ok () else .error (.fault .tooLarge)

end Failure

/-- An action on a state: an outcome, and the state that the action leaves whatever the outcome. -/
abbrev Action (σ α : Type) := ExceptT Failure (StateM σ) α

namespace Action

/-- The action that ends with a refusal or goes on with the value. -/
def ofRefusable {σ α : Type} : Except Refusal α → Action σ α
  | .ok a => pure a
  | .error r => throw (.refused r)

end Action

end PatchDynamics
