import PatchDynamics.Collection
import PatchDynamics.Patch
import PatchDynamics.Settings

/-!
# Assemblies

One directory, the patches that share it, and the collection of their frames. Patches are found by
their number; of several with the same number the first one counts. What patches tell the integrator
piles up in the order in which it was said, until the integrator takes it.
-/

namespace PatchDynamics

/-- A directory, patches and a collection. -/
structure Assembly where
  /-- the settings it was built with -/
  settings : Settings
  /-- where the particles are -/
  directory : Directory
  /-- the patches -/
  patches : List Patch
  /-- the frames -/
  collection : Collection
  /-- what the integrator has been told and has not taken yet -/
  signals : Array Signal

namespace Assembly

/-- Empty patches with the given numbers. Each takes three serial numbers for its boxes. -/
def newPatches (averaged : Bool) (ids : List PatchId) : List Patch :=
  ids.zipIdx.map fun (id, i) => Patch.new id (3 * i) averaged

/-- An assembly with one empty patch for each number. -/
def build (settings : Settings) (ids : List PatchId) : Assembly :=
  let homes := if settings.homePatches = 0 then ids.length else settings.homePatches
  { settings
    directory := Directory.allocate settings.capacity
    patches := newPatches settings.averaged ids
    collection := Collection.new homes settings.history
    signals := #[] }

/-- An assembly with one empty patch for each number, if its directory and its logs can be
addressed. -/
def build? (settings : Settings) (ids : List PatchId) : Except Failure Assembly := do
  Failure.ensureAddressable settings.capacity 8
  Failure.ensureAddressable (settings.history + 1) 8
  return build settings ids

/-- The numbers of the patches. -/
def patchIds (s : Assembly) : List PatchId := s.patches.map Patch.id

/-- The patch with this number. -/
def patch? (s : Assembly) (id : PatchId) : Option Patch := s.patches.find? fun p => p.id = id

/-- Changes the first patch with this number: the result of the change and the new list. -/
def changeFirst {α : Type} (id : PatchId) (change : Patch → α × Patch) :
    List Patch → Option (α × List Patch)
  | [] => none
  | p :: rest =>
    if p.id = id then
      let (a, p) := change p
      some (a, p :: rest)
    else
      (changeFirst id change rest).map fun (a, rest) => (a, p :: rest)

/-- A call on the patch with this number, made by an assembly that holds it: the outcome, and the
assembly with the patch changed and its signals added. -/
def call {α : Type} (s : Assembly) (id : PatchId) (f : Patch → Patch.Reply α) :
    Option (Except Refusal α × Assembly) :=
  let change := fun p => let reply := f p; ((reply.outcome, reply.signals), reply.patch)
  (changeFirst id change s.patches).map fun ((outcome, signals), patches) =>
    (outcome, { s with patches := patches, signals := s.signals ++ signals })

/-- A call on the patch with this number, as an action; `absent` is the failure where there is
none. -/
def onPatch {α : Type} (id : PatchId) (absent : Failure) (f : Patch → Patch.Reply α) :
    Action Assembly α := do
  match (← get).call id f with
  | none => throw absent
  | some (outcome, s) =>
    set s
    Action.ofRefusable outcome

/-- Replaces the atoms of the patch with this number. -/
def replaceAtoms (s : Assembly) (id : PatchId) (atoms : List Atom) :
    Option (Except Failure Unit × Assembly) :=
  let change := fun p =>
    let (outcome, directory, p) := p.replaceAtoms s.directory atoms
    ((outcome, directory), p)
  (changeFirst id change s.patches).map fun ((outcome, directory), patches) =>
    (outcome, { s with patches := patches, directory := directory })

/-- What the integrator has been told, and the assembly without it. -/
def takeSignals (s : Assembly) : List Signal × Assembly :=
  (s.signals.toList, { s with signals := #[] })

end Assembly

end PatchDynamics
