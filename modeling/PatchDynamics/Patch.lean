import PatchDynamics.Atom
import PatchDynamics.Box
import PatchDynamics.Directory
import PatchDynamics.ForceSums
import PatchDynamics.Roster

/-!
# Patches

The owner of the particles of one region, and of three boxes through which computes reach them:

* **positions** (read): the atoms as they are at the start of a step;
* **averages** (read): averaged positions, opened only by patches that are set up to publish them;
* **forces** (accumulate): one deposit from each registered compute in each step.

A step begins with `positionsReady`, which opens the boxes. The last force deposit ends it: the
deposits are summed, the integrator hears that the forces are final, and the position boxes close,
because nobody needs this step's positions any more. Every closing box counts down the number of
open boxes, and at zero the integrator hears that too. Between steps the membership may change.
-/

namespace PatchDynamics

/-- What an integrator hears from a patch. -/
inductive Signal where
  /-- the forces of a step are final -/
  | forcesReady (patch : PatchId) (cycle : Nat) (sums : ForceSums)
  /-- every box that the step opened has closed -/
  | boxesClosed (patch : PatchId)

/-- One region's particles and boxes. -/
structure Patch where
  /-- the patch -/
  id : PatchId
  /-- the particles, at the indices that the directory knows -/
  atoms : List Atom
  /-- the averaged positions to publish -/
  averages : List Atom
  /-- how many of the atoms do not move -/
  fixedAtoms : Nat
  /-- whether the step under way was announced with a change of membership -/
  announcedNew : Bool
  /-- whether the membership changed since the latest step began -/
  membershipChanged : Bool
  /-- the number of the latest step, zero before the first -/
  step : Nat
  /-- whether steps open the box of averaged positions -/
  averaged : Bool
  /-- the box of positions -/
  positionBox : Box (List Atom) Unit
  /-- the box of averaged positions -/
  averageBox : Box (List Atom) Unit
  /-- the box of forces -/
  forceBox : Box ForceFrame ForceDeposit
  /-- the computes that read positions -/
  readers : Roster (List ComputeId)
  /-- the computes that read averaged positions -/
  averageReaders : Roster (List ComputeId)
  /-- the computes that deposit forces -/
  contributors : Roster (List ComputeId)
  /-- the sums of the latest step -/
  sums : ForceSums
  /-- how many boxes of the step under way are open -/
  openBoxes : Nat

namespace Patch

/-- What one call on a patch does. -/
structure Reply (α : Type) where
  /-- what the caller gets -/
  outcome : Except Refusal α
  /-- what the integrator hears, in order -/
  signals : List Signal
  /-- the patch after the call -/
  patch : Patch

/-- An empty patch. Its boxes take three serial numbers from `serial` on. -/
def new (id : PatchId) (serial : Nat) (averaged : Bool) : Patch :=
  { id, averaged
    atoms := []
    averages := []
    fixedAtoms := 0
    announcedNew := false
    membershipChanged := false
    step := 0
    positionBox := Box.new serial ⟨id, .position⟩ .read
    averageBox := Box.new (serial + 1) ⟨id, .avgPosition⟩ .read
    forceBox := Box.new (serial + 2) ⟨id, .force⟩ .accumulate
    readers := Roster.empty
    averageReaders := Roster.empty
    contributors := Roster.empty
    sums := ForceSums.none
    openBoxes := 0 }

/-- A call that is refused and changes nothing. -/
def refuse {α : Type} (p : Patch) (r : Refusal) : Reply α := ⟨.error r, [], p⟩

/-- The number of atoms. -/
def size (p : Patch) : Nat := p.atoms.length

/-- Whether the membership changed since the step before the current one. -/
def hasNewAtoms (p : Patch) : Bool := p.announcedNew || p.membershipChanged

/-! ## Registration -/

/-- Registers a compute with one of the boxes. -/
def register (p : Patch) (kind : BoxKind) (task : ComputeId) : Reply Handle :=
  match kind with
  | .position =>
    let reply := p.positionBox.register task
    match reply.outcome with
    | .error r => p.refuse r
    | .ok h => ⟨.ok h, [], { p with
        positionBox := reply.box, readers := (p.readers.insert task).2 }⟩
  | .avgPosition =>
    let reply := p.averageBox.register task
    match reply.outcome with
    | .error r => p.refuse r
    | .ok h => ⟨.ok h, [], { p with
        averageBox := reply.box, averageReaders := (p.averageReaders.insert task).2 }⟩
  | .force =>
    let reply := p.forceBox.register task
    match reply.outcome with
    | .error r => p.refuse r
    | .ok h => ⟨.ok h, [], { p with
        forceBox := reply.box, contributors := (p.contributors.insert task).2 }⟩

/-- Gives a handle back to one of the boxes. -/
def unregister (p : Patch) (kind : BoxKind) (h : Handle) : Reply Unit :=
  match kind with
  | .position =>
    let reply := p.positionBox.unregister h
    match reply.outcome with
    | .error r => p.refuse r
    | .ok () => ⟨.ok (), [], { p with
        positionBox := reply.box, readers := (p.readers.remove h.task).2 }⟩
  | .avgPosition =>
    let reply := p.averageBox.unregister h
    match reply.outcome with
    | .error r => p.refuse r
    | .ok () => ⟨.ok (), [], { p with
        averageBox := reply.box, averageReaders := (p.averageReaders.remove h.task).2 }⟩
  | .force =>
    let reply := p.forceBox.unregister h
    match reply.outcome with
    | .error r => p.refuse r
    | .ok () => ⟨.ok (), [], { p with
        forceBox := reply.box, contributors := (p.contributors.remove h.task).2 }⟩

/-! ## The end of a step -/

/-- Counts one closed box; the last one of a step is announced. A box that closes while none is
counted as open changes nothing. -/
def boxClosed (p : Patch) : List Signal × Patch :=
  match p.openBoxes with
  | 0 => ([], p)
  | 1 => ([.boxesClosed p.id], { p with openBoxes := 0 })
  | left + 2 => ([], { p with openBoxes := left + 1 })

/-- Closes the box of positions, if it is open. -/
def closePositions (p : Patch) : List Signal × Patch :=
  let reply := p.positionBox.close
  match reply.completion with
  | none => ([], p)
  | some _ => { p with positionBox := reply.box }.boxClosed

/-- Closes the box of averaged positions, if it is open. -/
def closeAverages (p : Patch) : List Signal × Patch :=
  let reply := p.averageBox.close
  match reply.completion with
  | none => ([], p)
  | some _ => { p with averageBox := reply.box }.boxClosed

/-- The end of a step: the deposits are summed in the order of registration and announced, and all
boxes close. -/
def endStep (p : Patch) (c : Completion ForceDeposit) : List Signal × Patch :=
  let sums := p.sums.addAll (c.deposits.map Prod.snd)
  let (first, p) := { p with sums := sums }.closePositions
  let (second, p) := p.closeAverages
  let (third, p) := p.boxClosed
  (.forcesReady p.id c.cycle sums :: first ++ second ++ third, p)

/-- The reply of the box of forces, with the step ended if its cycle closed. -/
def afterForces {α : Type} (p : Patch) (reply : PatchDynamics.Reply ForceFrame ForceDeposit α) :
    Reply α :=
  let p := { p with forceBox := reply.box }
  match reply.completion with
  | none => ⟨reply.outcome, [], p⟩
  | some c =>
    let (signals, p) := p.endStep c
    ⟨reply.outcome, signals, p⟩

/-! ## The beginning of a step -/

/-- The boxes that a step opens: label, phase and latest cycle of each. -/
def neededBoxes (p : Patch) : List (BoxLabel × Phase × Nat) :=
  let positions := (p.positionBox.label, p.positionBox.phase, p.positionBox.cycle)
  let averages := (p.averageBox.label, p.averageBox.phase, p.averageBox.cycle)
  let forces := (p.forceBox.label, p.forceBox.phase, p.forceBox.cycle)
  if p.averaged then [positions, averages, forces] else [positions, forces]

/-- Opens the box of forces for the step. -/
def openForces (p : Patch) : Reply Unit :=
  let reply := p.afterForces (p.forceBox.publish ⟨p.id, p.step, p.size⟩)
  ⟨reply.outcome.map fun _ => (), reply.signals, reply.patch⟩

/-- Opens the box of averaged positions, if the patch publishes them, and then the box of forces. -/
def openAverages (p : Patch) : Reply Unit :=
  if p.averaged then
    let reply := p.averageBox.publish p.averages
    match reply.outcome with
    | .error r => p.refuse r
    | .ok _ => { p with averageBox := reply.box }.openForces
  else p.openForces

/-- Opens the boxes of a step in order. -/
def openAll (p : Patch) : Reply Unit :=
  let reply := p.positionBox.publish p.atoms
  match reply.outcome with
  | .error r => p.refuse r
  | .ok _ => { p with positionBox := reply.box }.openAverages

/-- The patch with the boxes that a failed beginning opened closed again. -/
def rollBack (p : Patch) : List Signal × Patch :=
  let (first, p) := p.closePositions
  let (second, p) := p.closeAverages
  (first ++ second, { p with openBoxes := 0 })

/-- Publishes the positions and opens the boxes of the next step. A tag other than zero announces a
change of membership. Nothing changes unless every box that the step needs is idle. -/
def positionsReady (p : Patch) (tag : UInt32) : Reply Unit :=
  match p.neededBoxes.find? fun b => b.2.1 ≠ .idle with
  | some (label, _, cycle) => p.refuse (.alreadyOpen label cycle)
  | none =>
    if p.openBoxes ≠ 0 then p.refuse (.alreadyOpen p.positionBox.label p.positionBox.cycle)
    else
      let begun := { p with
        announcedNew := tag ≠ 0 || p.membershipChanged
        membershipChanged := false
        step := p.step + 1
        sums := ForceSums.zeros (p.step + 1) p.size
        openBoxes := if p.averaged then 3 else 2 }
      let reply := begun.openAll
      match reply.outcome with
      | .ok () => reply
      | .error r =>
        let (signals, p) := reply.patch.rollBack
        ⟨.error r, reply.signals ++ signals, p⟩

/-! ## Computes -/

/-- The positions of the step under way. -/
def retrievePositions (p : Patch) (h : Handle) : Reply (List Atom) :=
  let reply := p.positionBox.retrieve h
  ⟨reply.outcome, [], { p with positionBox := reply.box }⟩

/-- The averaged positions of the step under way. -/
def retrieveAverages (p : Patch) (h : Handle) : Reply (List Atom) :=
  let reply := p.averageBox.retrieve h
  ⟨reply.outcome, [], { p with averageBox := reply.box }⟩

/-- What the box of forces says about the step under way. -/
def retrieveFrame (p : Patch) (h : Handle) : Reply ForceFrame :=
  p.afterForces (p.forceBox.retrieve h)

/-- The check that a deposit holds one vector for each atom. -/
def fitsFrame (id : PatchId) (task : ComputeId) (frame : ForceFrame) (d : ForceDeposit) :
    Except Refusal Unit :=
  if d.forces.length = frame.atoms then .ok ()
  else .error (.depositLength ⟨id, .force⟩ task frame.atoms d.forces.length)

/-- Deposits a compute's forces. The last deposit of a step ends it. -/
def deposit (p : Patch) (h : Handle) (d : ForceDeposit) : Reply Unit :=
  p.afterForces (p.forceBox.deposit (fitsFrame p.id) h d)

/-- A deposit into the box of positions, which is only read. -/
def depositIntoPositions (p : Patch) (h : Handle) : Reply Unit :=
  let reply := p.positionBox.deposit Box.acceptAll h ()
  ⟨reply.outcome, [], { p with positionBox := reply.box }⟩

/-- A deposit into the box of averaged positions, which is only read. -/
def depositIntoAverages (p : Patch) (h : Handle) : Reply Unit :=
  let reply := p.averageBox.deposit Box.acceptAll h ()
  ⟨reply.outcome, [], { p with averageBox := reply.box }⟩

/-! ## Between steps -/

/-- Refuses while boxes are open. -/
def ensureClosed (p : Patch) : Except Refusal Unit :=
  if p.openBoxes = 0 then .ok () else .error (.boxesOpen p.id p.openBoxes)

/-- Replaces the membership and brings the directory up to date: the particles listed so far are
given up, then the new list is entered. -/
def replaceAtoms (d : Directory) (p : Patch) (atoms : List Atom) :
    Except Failure Unit × Directory × Patch :=
  match p.ensureClosed with
  | .error r => (.error (.refused r), d, p)
  | .ok () =>
    match d.unregister p.id (p.atoms.map Atom.id) with
    | (.error e, d) => (.error e, d, p)
    | (.ok _, d) =>
      match d.register p.id (atoms.map Atom.id) with
      | (.error e, d) => (.error e, d, p)
      | (.ok _, d) =>
        (.ok (), d, { p with atoms := atoms, averages := atoms, membershipChanged := true })

/-- Changes the list of atoms without telling the directory. -/
def editAtoms (p : Patch) (f : List Atom → List Atom) : Reply Unit :=
  match p.ensureClosed with
  | .error r => p.refuse r
  | .ok () => ⟨.ok (), [], { p with atoms := f p.atoms }⟩

/-- Sets the averaged positions to publish. -/
def setAverages (p : Patch) (averages : List Atom) : Reply Unit :=
  match p.ensureClosed with
  | .error r => p.refuse r
  | .ok () => ⟨.ok (), [], { p with averages := averages }⟩

/-- Sets how many of the atoms do not move. -/
def setFixedAtoms (p : Patch) (count : Nat) : Patch := { p with fixedAtoms := count }

/-! ## Description -/

/-- The patch in one line. -/
def describe (p : Patch) : String :=
  s!"Patch \x7b id: PatchId({p.id.text}), num_atoms: {p.size}, step: {p.step}, " ++
    s!"boxes_open: {p.openBoxes}, position_computes: {p.readers.size}, " ++
    s!"force_computes: {p.contributors.size} \x7d"

end Patch

end PatchDynamics
