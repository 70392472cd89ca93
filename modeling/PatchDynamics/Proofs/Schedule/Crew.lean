import Mathlib.Data.List.Perm.Basic
import Mathlib.Logic.Function.Basic
import PatchDynamics.Proofs.Assembly.Calls
import PatchDynamics.Proofs.Patch.Course
import PatchDynamics.Proofs.Schedule.Worker

/-!
# Tasks side by side

In a step, tasks take turns at their calls in whatever order. This file runs tasks by a schedule, a
list that names the task whose turn it is:

* `Crew`, `Crew.turn`, `Crew.history` — an assembly with its tasks in a step, one turn, and what is
  seen of the turns of a schedule;
* `Equipped` — what the patches are like at the beginning of a step;
* `Progress` — the invariant: after some calls, in whatever order, each patch is what its share of
  them makes of it, and each task has the rest of its own calls to make;
* `Progress.after` — the invariant after the turns of a schedule.
-/

namespace PatchDynamics

/-! ## Turns -/

/-- An assembly and the tasks that work on it in a step. -/
structure Crew where
  /-- the assembly -/
  assembly : Assembly
  /-- the tasks, by their computes -/
  workers : ComputeId → Worker

/-- What is seen of one turn. -/
structure Turn where
  /-- the compute whose turn it is -/
  task : ComputeId
  /-- the call that it makes -/
  move : Option Move
  /-- whether the call goes well -/
  outcome : Except Failure Unit
  /-- what the integrator hears meanwhile -/
  signals : List Signal

namespace Crew

variable (laws : ComputeId → ForceLaw) (grid : Grid)

/-- The tasks at the beginning of a step. A compute that is none of them has nothing to do. -/
def muster (tasks : List ForceTask) (s : Assembly) : Crew where
  assembly := s
  workers id := match tasks.find? fun t => t.id = id with
    | some t => Worker.start t
    | none => .writing [] ⟨0, 0⟩

/-- The crew after a turn of one task. A task whose call fails is stuck. -/
def turn (c : Crew) (id : ComputeId) : Crew :=
  match (c.workers id).move (laws id) grid c.assembly with
  | (.ok w, s) => ⟨s, Function.update c.workers id w⟩
  | (.error _, s) => ⟨s, c.workers⟩

/-- What is seen of a turn of one task. -/
def seen (c : Crew) (id : ComputeId) : Turn where
  task := id
  move := (c.workers id).next? (laws id)
  outcome := ((c.workers id).move (laws id) grid c.assembly).1.map fun _ => ()
  signals := (c.turn laws grid id).assembly.signals.toList.drop c.assembly.signals.size

/-- The crew after the turns of a schedule. -/
def after (c : Crew) (order : List ComputeId) : Crew := order.foldl (turn laws grid) c

/-- What is seen of the turns of a schedule, in order. -/
def history : Crew → List ComputeId → List Turn := trace (turn laws grid) (seen laws grid)

/-- A turn leaves all but the patches and the signals of the assembly alone. -/
theorem frame_turn (c : Crew) (id : ComputeId) :
    (c.turn laws grid id).assembly.frame = c.assembly.frame := by
  have hmove := (c.workers id).frame_move (laws id) grid c.assembly
  rw [turn]
  generalize (c.workers id).move (laws id) grid c.assembly = result at hmove
  rcases result with ⟨_ | w, s⟩ <;> exact hmove

theorem frame_after (c : Crew) (order : List ComputeId) :
    (c.after laws grid order).assembly.frame = c.assembly.frame := by
  induction order generalizing c with
  | nil => rfl
  | cons id order ih => exact (ih (c.turn laws grid id)).trans (c.frame_turn laws grid id)

end Crew

/-! ## The calls on one patch -/

namespace Move

/-- Whether the call retrieves the positions of a patch. -/
def reads (patch : PatchId) : Move → Bool
  | .retrieve e => e.patch = patch
  | .deposit _ _ => false

/-- What the call deposits on a patch. -/
def deposit? (patch : PatchId) : Move → Option (Handle × ForceDeposit)
  | .retrieve _ => none
  | .deposit e d => if e.patch = patch then some (e.forces, d) else none

end Move

/-- How many of some calls retrieve the positions of a patch. -/
def retrievals (patch : PatchId) (moves : List Move) : Nat := moves.countP (Move.reads patch)

/-- What some calls deposit on a patch. -/
def depositsOn (patch : PatchId) (moves : List Move) : List (Handle × ForceDeposit) :=
  moves.filterMap (Move.deposit? patch)

theorem depositsOn_append (patch : PatchId) (moves more : List Move) :
    depositsOn patch (moves ++ more) = depositsOn patch moves ++ depositsOn patch more :=
  List.filterMap_append

theorem retrievals_append (patch : PatchId) (moves more : List Move) :
    retrievals patch (moves ++ more) = retrievals patch moves + retrievals patch more :=
  List.countP_append

/-- What becomes of a patch in a step by some calls; a patch that is not in a step awaits none. -/
def Patch.afterMoves (p : Patch) (moves : List Move) : Patch :=
  if p.forceBox.phase = .opened then p.during (retrievals p.id moves) (depositsOn p.id moves) else p

namespace Patch

variable {p : Patch}

@[simp] theorem id_afterMoves (moves : List Move) : (p.afterMoves moves).id = p.id := by
  rw [afterMoves]
  split
  · rw [during]
    split <;> rfl
  · rfl

theorem afterMoves_of_begun (hp : p.Begun) (moves : List Move) :
    p.afterMoves moves = p.during (retrievals p.id moves) (depositsOn p.id moves) :=
  if_pos hp.stands.force_phase

/-- Before the first call, the patch is as it was. -/
theorem afterMoves_nil (hp : p.forceBox.phase = .opened → p.Begun) : p.afterMoves [] = p := by
  rw [afterMoves]
  split
  · next hphase =>
    have hbegun := hp hphase
    have hmore : ([] : List (Handle × ForceDeposit)).length < p.forceBox.expected :=
      Nat.pos_of_ne_zero hbegun.awaits
    rw [show depositsOn p.id [] = [] from rfl, Begun.during_of_lt hmore, midStep,
      Box.holding_nil, show retrievals p.id [] = p.positionBox.retrievals from hbegun.unread.symm]
  · rfl

theorem afterMoves_retrieve (hp : p.Begun) {e : Endpoint} (he : e.patch = p.id)
    (past : List Move) :
    p.afterMoves (past ++ [.retrieve e]) =
      p.during (retrievals p.id past + 1) (depositsOn p.id past) := by
  have hr : retrievals p.id (past ++ [.retrieve e]) = retrievals p.id past + 1 := by
    rw [retrievals_append, retrievals, retrievals]
    simp [Move.reads, he]
  rw [afterMoves_of_begun hp, hr, depositsOn_append]
  exact congrArg (p.during _) (List.append_nil _)

theorem depositsOn_deposit {e : Endpoint} (he : e.patch = p.id) (past : List Move)
    (d : ForceDeposit) :
    depositsOn p.id (past ++ [.deposit e d]) = depositsOn p.id past ++ [(e.forces, d)] := by
  rw [depositsOn_append]
  exact congrArg (_ ++ ·) (by simp [depositsOn, Move.deposit?, he])

theorem afterMoves_deposit (hp : p.Begun) {e : Endpoint} (he : e.patch = p.id) (past : List Move)
    (d : ForceDeposit) :
    p.afterMoves (past ++ [.deposit e d]) =
      p.during (retrievals p.id past) (depositsOn p.id past ++ [(e.forces, d)]) := by
  rw [afterMoves_of_begun hp, depositsOn_deposit he, retrievals_append]
  rfl

/-- A call on another patch changes nothing here. -/
theorem afterMoves_of_ne {past : List Move} {m : Move} (hreads : m.reads p.id = false)
    (hdeposit : m.deposit? p.id = none) : p.afterMoves (past ++ [m]) = p.afterMoves past := by
  have hr : retrievals p.id (past ++ [m]) = retrievals p.id past := by
    rw [retrievals_append, retrievals, retrievals]
    simp [hreads]
  have hd : depositsOn p.id (past ++ [m]) = depositsOn p.id past := by
    rw [depositsOn_append, depositsOn, depositsOn]
    simp [hdeposit]
  rw [afterMoves, afterMoves, hr, hd]

end Patch

/-! ## The beginning of a step -/

section Step

variable (laws : ComputeId → ForceLaw) (grid : Grid) (base : List Patch) (tasks : List ForceTask)

/-- The positions at an endpoint, as they are published at the beginning of a step. -/
def positionsAt (e : Endpoint) : List Vec3 :=
  match base.find? fun p => p.id = e.patch with
  | some p => p.atoms.map Atom.position
  | none => []

/-- All calls that tasks are to make in a step, task by task. -/
def scripts : List Move := tasks.flatMap fun t => t.script (laws t.id) grid (positionsAt base)

/-- What the tasks hold of a patch, in the order of the tasks. -/
def endpointsOn (patch : PatchId) : List Endpoint :=
  (tasks.flatMap ForceTask.endpoints).filter fun e => e.patch = patch

/-- The patches at the beginning of a step, with some tasks registered and nobody else depositing
forces. -/
structure Equipped : Prop where
  /-- the patches have different numbers -/
  distinct : (base.map Patch.id).Nodup
  /-- the tasks are different computes -/
  computes : (tasks.map ForceTask.id).Nodup
  /-- each task works on some patch -/
  working : ∀ t ∈ tasks, t.endpoints ≠ []
  /-- a patch whose box of forces is open has just begun its step -/
  begun : ∀ p ∈ base, p.forceBox.phase = .opened → p.Begun
  /-- the patches of the tasks are there, and in their step -/
  present : ∀ t ∈ tasks, ∀ e ∈ t.endpoints, ∃ p ∈ base, p.id = e.patch ∧
    p.forceBox.phase = .opened ∧ e.positions ∈ p.positionBox.handles
  /-- the handles on the forces of a patch are those of the tasks -/
  handles : ∀ p ∈ base, p.forceBox.handles = (endpointsOn tasks p.id).map Endpoint.forces

variable {laws grid base tasks}

theorem positionsAt_eq (hdistinct : (base.map Patch.id).Nodup) {p : Patch} (hp : p ∈ base)
    {e : Endpoint} (he : p.id = e.patch) : positionsAt base e = p.atoms.map Atom.position := by
  rw [positionsAt, find?_of_mem hdistinct hp he]

/-- What a task deposits on a patch, by its handles there. -/
theorem map_fst_depositsOn_script {t : ForceTask} (hsome : t.endpoints ≠ []) (patch : PatchId) :
    (depositsOn patch (t.script (laws t.id) grid (positionsAt base))).map Prod.fst =
      (t.endpoints.filter fun e => e.patch = patch).map Endpoint.forces := by
  have hreads : depositsOn patch (t.endpoints.map .retrieve) = [] := by
    rw [depositsOn, List.filterMap_map]
    exact List.filterMap_eq_nil_iff.mpr fun _ _ => rfl
  have hforces := ForceTask.map_fst_forces (laws t.id) grid (positionsAt base) hsome
  rw [ForceTask.script, depositsOn_append, hreads, List.nil_append, ← hforces]
  generalize t.forces (laws t.id) grid (positionsAt base) = forces
  induction forces with
  | nil => rfl
  | cons head forces ih =>
    rw [Move.deposits, List.map_cons, ← Move.deposits, List.map_cons, List.filter_cons, depositsOn,
      List.filterMap_cons, ← depositsOn]
    -- a deposit on the patch, or on another one
    by_cases hpatch : head.1.patch = patch
    · simp only [Move.deposit?, hpatch, if_true, decide_true, List.map_cons, ih]
    · simp only [Move.deposit?, hpatch, if_false, decide_false, Bool.false_eq_true, ih]

variable (laws grid base) in
/-- What all tasks deposit on a patch, by their handles there. -/
theorem map_fst_depositsOn_scripts (working : ∀ t ∈ tasks, t.endpoints ≠ []) (patch : PatchId) :
    (depositsOn patch (scripts laws grid base tasks)).map Prod.fst =
      (endpointsOn tasks patch).map Endpoint.forces := by
  induction tasks with
  | nil => rfl
  | cons t tasks ih =>
    rw [List.forall_mem_cons] at working
    rw [scripts, List.flatMap_cons, ← scripts, depositsOn_append, List.map_append,
      map_fst_depositsOn_script working.1, ih working.2, endpointsOn, endpointsOn,
      List.flatMap_cons, List.filter_append, List.map_append]

/-! ## What is done and what is left -/

variable {past others : List Move} {p : Patch}

/-- The handles on the forces of a patch, those spent by the calls made and those left for the
calls to come. -/
theorem Equipped.account (h : Equipped base tasks)
    (hall : (past ++ others).Perm (scripts laws grid base tasks)) (hp : p ∈ base) :
    ((depositsOn p.id past).map Prod.fst ++ (depositsOn p.id others).map Prod.fst).Perm
      p.forceBox.handles := by
  rw [h.handles p hp, ← map_fst_depositsOn_scripts laws grid base h.working, ← List.map_append,
    ← depositsOn_append]
  exact (hall.filterMap _).map _

/-- While a deposit on a patch is to come, the patch is not complete. -/
theorem Equipped.more (h : Equipped base tasks)
    (hall : (past ++ others).Perm (scripts laws grid base tasks)) (hp : p ∈ base)
    (hsome : depositsOn p.id others ≠ []) :
    (depositsOn p.id past).length < p.forceBox.expected := by
  have hlength := (h.account hall hp).length_eq
  have hpos := List.length_pos_of_ne_nil hsome
  rw [List.length_append, List.length_map, List.length_map, Box.length_handles] at hlength
  omega

/-- **A deposit that is to come** is through a handle that is not spent; and if it is the last one
that the patch awaits, all handles are spent after it. -/
theorem Equipped.deposit (h : Equipped base tasks) {e : Endpoint} {d : ForceDeposit}
    (hall : (past ++ .deposit e d :: others).Perm (scripts laws grid base tasks)) (hp : p ∈ base)
    (hpatch : e.patch = p.id) (hbegun : p.Begun) :
    e.forces ∈ p.forceBox.handles ∧ e.forces ∉ (depositsOn p.id past).map Prod.fst ∧
      ((depositsOn p.id past).length + 1 = p.forceBox.expected →
        ∀ g ∈ p.forceBox.handles, g ∈ (depositsOn p.id past ++ [(e.forces, d)]).map Prod.fst) := by
  have hnext : depositsOn p.id (.deposit e d :: others) =
      (e.forces, d) :: depositsOn p.id others := by
    rw [depositsOn, List.filterMap_cons, Move.deposit?, if_pos hpatch]
    rfl
  have haccount := h.account hall hp
  rw [hnext, List.map_cons] at haccount
  have hnodup := haccount.nodup_iff.mpr (Box.nodup_handles hbegun.orderly.forces.nodup)
  refine ⟨haccount.mem_iff.mp (List.mem_append_right _ List.mem_cons_self), ?_, ?_⟩
  · exact fun hmem => (List.nodup_append.mp hnodup).2.2 _ hmem _ List.mem_cons_self rfl
  · intro hlast g hg
    -- nothing is left for the calls to come
    have hlength := haccount.length_eq
    rw [List.length_append, List.length_cons, List.length_map, List.length_map, Box.handles,
      List.length_map] at hlength
    rw [Box.expected] at hlast
    have hnone : depositsOn p.id others = [] := List.eq_nil_of_length_eq_zero (by omega)
    rw [hnone] at haccount
    rw [List.map_append]
    exact haccount.mem_iff.mpr hg

/-- What the integrator hears of a call, after some other calls of the step. -/
def announced (base : List Patch) (past : List Move) (m : Move) : List Signal :=
  match m with
  | .retrieve _ => []
  | .deposit e _ =>
    match base.find? fun p => p.id = e.patch with
    | none => []
    | some p =>
      if (depositsOn p.id past).length + 1 = p.forceBox.expected then
        Patch.announcement p.id (p.sums.addAll (p.inOrder (depositsOn p.id (past ++ [m]))))
      else []

theorem announced_deposit (hdistinct : (base.map Patch.id).Nodup) (hp : p ∈ base) {e : Endpoint}
    (he : p.id = e.patch) (d : ForceDeposit) :
    announced base past (.deposit e d) =
      if (depositsOn p.id past).length + 1 = p.forceBox.expected then
        Patch.announcement p.id
          (p.sums.addAll (p.inOrder (depositsOn p.id past ++ [(e.forces, d)])))
      else [] := by
  rw [announced, find?_of_mem hdistinct hp he, ← Patch.depositsOn_deposit he.symm]

/-- A call on one patch leaves the others as they are. -/
theorem putPatch_afterMoves (hdistinct : (base.map Patch.id).Nodup) (hp : p ∈ base) {m : Move}
    (hother : ∀ q ∈ base, q.id ≠ p.id → m.reads q.id = false ∧ m.deposit? q.id = none) :
    Assembly.putPatch base (·.afterMoves past) p (p.afterMoves (past ++ [m])) =
      base.map (·.afterMoves (past ++ [m])) := by
  refine List.map_congr_left fun q hq => ?_
  by_cases hid : q.id = p.id
  · rw [if_pos hid, List.inj_on_of_nodup_map hdistinct hq hp hid]
  · rw [if_neg hid, Patch.afterMoves_of_ne (hother q hq hid).1 (hother q hq hid).2]

/-- **A retrieval goes well** as long as a deposit on its patch is to come. -/
theorem Equipped.retrieve_succeeds (h : Equipped base tasks) {e : Endpoint} {t : ForceTask}
    (hall : (past ++ .retrieve e :: others).Perm (scripts laws grid base tasks)) (ht : t ∈ tasks)
    (he : e ∈ t.endpoints) (hsome : depositsOn e.patch others ≠ []) {s : Assembly}
    (hpatches : s.patches = base.map (·.afterMoves past)) :
    ∃ s', Move.Succeeds (positionsAt base) (.retrieve e) s s' ∧
      s'.patches = base.map (·.afterMoves (past ++ [.retrieve e])) ∧
      s'.signals = s.signals ++ announced base past (.retrieve e) := by
  obtain ⟨p, hp, hpatch, hphase, hhandle⟩ := h.present t ht e he
  have hbegun := h.begun p hp hphase
  have hmore := h.more hall hp (hpatch ▸ hsome)
  have hreply : (p.afterMoves past).retrievePositions e.positions =
      ⟨.ok p.atoms, [], p.afterMoves (past ++ [.retrieve e])⟩ := by
    rw [Patch.afterMoves_of_begun hbegun, Patch.afterMoves_retrieve hbegun hpatch.symm]
    exact hbegun.retrieve_during hhandle hmore
  have hcall := Assembly.onPatch_eq (f := fun p => p.retrievePositions e.positions) hpatches
    (fun q _ => q.id_afterMoves past) h.distinct hp (.unknownPatch e.patch) hreply
  rw [putPatch_afterMoves h.distinct hp] at hcall
  · refine ⟨{ s with
      patches := base.map (·.afterMoves (past ++ [.retrieve e]))
      signals := s.signals ++ [] }, ?_, rfl, rfl⟩
    rw [Move.Succeeds, positionsAt_eq h.distinct hp hpatch]
    rw [hpatch] at hcall
    exact bind_of_ok hcall fun atoms => return atoms.map Atom.position
  · intro q hq hne
    exact ⟨by simp [Move.reads, ← hpatch, hne.symm], rfl⟩

/-- **A deposit goes well**, and the integrator hears of it if it is the last one that its patch
awaits. -/
theorem Equipped.deposit_succeeds (h : Equipped base tasks) {e : Endpoint} {d : ForceDeposit}
    {t : ForceTask}
    (hall : (past ++ .deposit e d :: others).Perm (scripts laws grid base tasks)) (ht : t ∈ tasks)
    (he : e ∈ t.endpoints) (hfits : d.forces.length = (positionsAt base e).length) {s : Assembly}
    (hpatches : s.patches = base.map (·.afterMoves past)) :
    ∃ s', Move.Succeeds (positionsAt base) (.deposit e d) s s' ∧
      s'.patches = base.map (·.afterMoves (past ++ [.deposit e d])) ∧
      s'.signals = s.signals ++ announced base past (.deposit e d) := by
  obtain ⟨p, hp, hpatch, hphase, -⟩ := h.present t ht e he
  have hbegun := h.begun p hp hphase
  have hsize : d.forces.length = p.size := by
    rw [hfits, positionsAt_eq h.distinct hp hpatch, List.length_map, Patch.size]
  obtain ⟨hhandle, hnew, hlast⟩ := h.deposit hall hp hpatch.symm hbegun
  have hmore := h.more hall hp (by
    rw [depositsOn, List.filterMap_cons, Move.deposit?, if_pos hpatch.symm]
    exact List.cons_ne_nil _ _)
  have hreply : (p.afterMoves past).deposit e.forces d =
      ⟨.ok (), announced base past (.deposit e d), p.afterMoves (past ++ [.deposit e d])⟩ := by
    rw [announced_deposit h.distinct hp hpatch, Patch.afterMoves_of_begun hbegun,
      Patch.afterMoves_deposit hbegun hpatch.symm]
    exact hbegun.deposit_during hhandle hnew hsize hmore hlast
  have hcall := Assembly.onPatch_eq (f := fun p => p.deposit e.forces d) hpatches
    (fun q _ => q.id_afterMoves past) h.distinct hp (.unknownPatch e.patch) hreply
  rw [putPatch_afterMoves h.distinct hp] at hcall
  · refine ⟨{ s with
      patches := base.map (·.afterMoves (past ++ [.deposit e d]))
      signals := s.signals ++ announced base past (.deposit e d) }, ?_, rfl, rfl⟩
    rw [hpatch] at hcall
    exact hcall
  · intro q hq hne
    exact ⟨rfl, if_neg fun heq => hne (heq.symm.trans hpatch.symm)⟩

/-! ## The invariant of a step -/

/-- All calls that are left, task by task. -/
def left (tasks : List ForceTask) (ahead : ComputeId → List Move) : List Move :=
  tasks.flatMap fun t => ahead t.id

/-- A task that makes the first of its calls takes it out of those that are left. -/
theorem left_update (computes : (tasks.map ForceTask.id).Nodup) {t : ForceTask} (ht : t ∈ tasks)
    {ahead : ComputeId → List Move} {m : Move} {rest : List Move}
    (hahead : ahead t.id = m :: rest) :
    (left tasks ahead).Perm (m :: left tasks (Function.update ahead t.id rest)) := by
  have hothers : ∀ l : List ForceTask, t.id ∉ l.map ForceTask.id →
      left l (Function.update ahead t.id rest) = left l ahead := by
    intro l hl
    refine List.flatMap_congr fun u hu => Function.update_of_ne ?_ _ _
    exact fun heq => hl (heq ▸ List.mem_map_of_mem hu)
  -- the task is found by its compute, which no other task has
  induction tasks with
  | nil => cases ht
  | cons u tasks ih =>
    rw [List.map_cons, List.nodup_cons] at computes
    rw [left, left, List.flatMap_cons, List.flatMap_cons, ← left, ← left]
    rcases List.mem_cons.mp ht with rfl | ht
    · rw [hothers tasks computes.1, hahead, Function.update_self]
      exact .refl _
    · have hne : u.id ≠ t.id := fun heq => computes.1 (heq ▸ List.mem_map_of_mem ht)
      rw [Function.update_of_ne hne]
      exact ((ih computes.2 ht).append_left _).trans List.perm_middle

/-- What holds between the calls of a step: those made and those left are all there are, each patch
is what the calls made have made of it, and each task has its own calls left. -/
structure Progress (laws : ComputeId → ForceLaw) (grid : Grid) (base : List Patch)
    (tasks : List ForceTask) (c : Crew) (past : List Move) (ahead : ComputeId → List Move) :
    Prop where
  /-- each task has its calls left to make -/
  follows : ∀ t ∈ tasks,
    Worker.Follows (laws t.id) grid (positionsAt base) t (c.workers t.id) (ahead t.id)
  /-- the calls made and those left are all calls -/
  accounted : (past ++ left tasks ahead).Perm (scripts laws grid base tasks)
  /-- the patches are what the calls made have made of them -/
  patches : c.assembly.patches = base.map (·.afterMoves past)

variable {c : Crew} {ahead : ComputeId → List Move} {t : ForceTask} {m : Move} {rest : List Move}

/-- The calls of each task, by its compute. -/
def scriptOf (laws : ComputeId → ForceLaw) (grid : Grid) (base : List Patch)
    (tasks : List ForceTask) (id : ComputeId) : List Move :=
  match tasks.find? fun t => t.id = id with
  | some t => t.script (laws t.id) grid (positionsAt base)
  | none => []

theorem scriptOf_eq (computes : (tasks.map ForceTask.id).Nodup) (ht : t ∈ tasks) :
    scriptOf laws grid base tasks t.id = t.script (laws t.id) grid (positionsAt base) := by
  rw [scriptOf, find?_of_mem computes ht rfl]

/-- At the beginning, all calls are left. -/
theorem progress_muster (h : Equipped base tasks) {s : Assembly} (hs : s.patches = base) :
    Progress laws grid base tasks (Crew.muster tasks s) [] (scriptOf laws grid base tasks) := by
  refine ⟨fun t ht => ?_, ?_, ?_⟩
  · have hfind := find?_of_mem h.computes ht rfl
    rw [Crew.muster, scriptOf_eq h.computes ht]
    simp only [hfind]
    exact Worker.follows_start (h.working t ht)
  · rw [List.nil_append, left, scripts, List.flatMap_congr fun t ht => scriptOf_eq h.computes ht]
  · rw [Crew.muster, hs]
    refine (List.map_id' base).symm.trans (List.map_congr_left fun p hp => ?_)
    exact (p.afterMoves_nil (h.begun p hp)).symm

/-- The next call of a task goes well, whatever the other tasks have done. -/
theorem Progress.succeeds (hequipped : Equipped base tasks)
    (h : Progress laws grid base tasks c past ahead) (ht : t ∈ tasks)
    (hahead : ahead t.id = m :: rest) :
    ∃ s', m.Succeeds (positionsAt base) c.assembly s' ∧
      s'.patches = base.map (·.afterMoves (past ++ [m])) ∧
      s'.signals = c.assembly.signals ++ announced base past m := by
  have hall := ((left_update hequipped.computes ht hahead).symm.append_left past).trans h.accounted
  cases m with
  | deposit e d =>
    have hmem := hall.mem_iff.mp (List.mem_append_right _ List.mem_cons_self)
    -- whichever task the deposit is of, it is on a patch of that task
    obtain ⟨u, hu, hscript⟩ := List.mem_flatMap.mp hmem
    obtain ⟨he, hfits⟩ := ForceTask.deposit_mem_script (hequipped.working u hu) hscript
    exact hequipped.deposit_succeeds hall hu he hfits h.patches
  | retrieve e =>
    have hfollows := h.follows t ht
    rw [hahead] at hfollows
    obtain ⟨he, hlater⟩ := hfollows.deposits_later
    refine hequipped.retrieve_succeeds hall ht he ?_ h.patches
    -- the task itself has yet to deposit on the patch that it reads
    have hforces := ForceTask.map_fst_forces (laws t.id) grid (positionsAt base)
      (hequipped.working t ht)
    rw [← hforces] at he
    obtain ⟨⟨e, list⟩, hmem, rfl⟩ := List.mem_map.mp he
    have hrest := hlater (.deposit e ⟨(laws t.id).channel, list⟩) (List.mem_map_of_mem hmem)
    have hleft : .deposit e ⟨(laws t.id).channel, list⟩ ∈
        left tasks (Function.update ahead t.id rest) := by
      refine List.mem_flatMap.mpr ⟨t, ht, ?_⟩
      rw [Function.update_self]
      exact hrest
    exact List.ne_nil_of_mem (List.mem_filterMap.mpr ⟨_, hleft, if_pos rfl⟩)

/-- **A turn** makes the next call of a task, which goes well. -/
theorem Progress.turn (hequipped : Equipped base tasks)
    (h : Progress laws grid base tasks c past ahead) (ht : t ∈ tasks)
    (hahead : ahead t.id = m :: rest) :
    Progress laws grid base tasks (c.turn laws grid t.id) (past ++ [m])
        (Function.update ahead t.id rest) ∧
      c.seen laws grid t.id = ⟨t.id, some m, .ok (), announced base past m⟩ := by
  obtain ⟨s', hsucceeds, hpatches, hsignals⟩ := h.succeeds hequipped ht hahead
  have hfollows := h.follows t ht
  rw [hahead] at hfollows
  obtain ⟨hnext, w, hthen, hmove⟩ := hfollows.move
  have hmove := hmove c.assembly s' hsucceeds
  have hturn : c.turn laws grid t.id = ⟨s', Function.update c.workers t.id w⟩ := by
    rw [Crew.turn, hmove]
  refine ⟨⟨fun u hu => ?_, ?_, ?_⟩, ?_⟩
  -- the task whose turn it is goes on, and the others stay where they are
  · rw [hturn]
    dsimp only
    by_cases hid : u.id = t.id
    · obtain rfl := List.inj_on_of_nodup_map hequipped.computes hu ht hid
      rw [Function.update_self, Function.update_self]
      exact hthen
    · rw [Function.update_of_ne hid, Function.update_of_ne hid]
      exact h.follows u hu
  -- the call moves from those left to those made
  · rw [← List.append_cons]
    exact ((left_update hequipped.computes ht hahead).symm.append_left past).trans h.accounted
  · rw [hturn]
    exact hpatches
  · rw [Crew.seen, hturn, hmove, hnext, hsignals]
    simp [Except.map]

/-! ## Schedules -/

/-- The calls that some turns made, in order. -/
def moves (turns : List Turn) : List Move := turns.filterMap Turn.move

/-- The calls that one task made in some turns, in order. -/
def movesBy (id : ComputeId) (turns : List Turn) : List Move :=
  moves (turns.filter fun turn => turn.task = id)

theorem moves_cons {turn : Turn} {m : Move} (hmove : turn.move = some m) (turns : List Turn) :
    moves (turn :: turns) = m :: moves turns := List.filterMap_cons_some hmove

/-- A turn in which a task makes a call, and the turns after it. -/
theorem movesBy_cons (id : ComputeId) {turn : Turn} {m : Move} (hmove : turn.move = some m)
    (turns : List Turn) :
    movesBy id (turn :: turns) =
      if turn.task = id then m :: movesBy id turns else movesBy id turns := by
  rw [movesBy, List.filter_cons]
  by_cases hid : turn.task = id
  · rw [if_pos (decide_eq_true hid), if_pos hid, moves_cons hmove]
    rfl
  · rw [if_neg (by simpa using hid), if_neg hid]
    rfl

/-- What is done and what is left after a schedule that gives no task more turns than it has calls
left. -/
structure Advanced (laws : ComputeId → ForceLaw) (grid : Grid) (base : List Patch)
    (tasks : List ForceTask) (c : Crew) (past : List Move) (ahead : ComputeId → List Move)
    (order : List ComputeId) : Prop where
  /-- the calls of the turns are made, and the others are left -/
  progress : Progress laws grid base tasks (c.after laws grid order)
    (past ++ moves (c.history laws grid order)) fun id => (ahead id).drop (order.count id)
  /-- each task has made its own calls in order -/
  inTurn : ∀ t ∈ tasks,
    movesBy t.id (c.history laws grid order) = (ahead t.id).take (order.count t.id)

/-- **A schedule** that gives no task more turns than it has calls left keeps the invariant. -/
theorem Progress.after (hequipped : Equipped base tasks)
    (h : Progress laws grid base tasks c past ahead) {order : List ComputeId}
    (hcrew : ∀ id ∈ order, ∃ t ∈ tasks, t.id = id)
    (hcount : ∀ t ∈ tasks, order.count t.id ≤ (ahead t.id).length) :
    Advanced laws grid base tasks c past ahead order := by
  induction order generalizing c past ahead with
  | nil =>
    refine ⟨?_, fun t _ => rfl⟩
    rw [show moves (c.history laws grid []) = [] from rfl, List.append_nil]
    exact h
  | cons id order ih =>
    rw [List.forall_mem_cons] at hcrew
    obtain ⟨⟨t, ht, rfl⟩, hcrew⟩ := hcrew
    -- the task has a turn to come, so it has a call left
    have hsome := hcount t ht
    rw [List.count_cons_self] at hsome
    obtain ⟨m, rest, hahead⟩ := List.exists_cons_of_length_pos (Nat.lt_of_lt_of_le (by omega) hsome)
    obtain ⟨hturn, hseen⟩ := h.turn hequipped ht hahead
    have hhistory : c.history laws grid (t.id :: order) =
        ⟨t.id, some m, .ok (), announced base past m⟩ ::
          (c.turn laws grid t.id).history laws grid order :=
      congrArg (· :: (c.turn laws grid t.id).history laws grid order) hseen
    -- the task has one call less to make, and one turn less to come
    have hdrop : ∀ u, (Function.update ahead t.id rest u).drop (order.count u) =
        (ahead u).drop ((t.id :: order).count u) := by
      intro u
      by_cases hid : u = t.id
      · rw [hid, Function.update_self, List.count_cons_self, hahead, List.drop_succ_cons]
      · rw [Function.update_of_ne hid, List.count_cons_of_ne (Ne.symm hid)]
    obtain ⟨hprogress, hinTurn⟩ := ih hturn hcrew fun u hu => by
      have hu := hcount u hu
      by_cases hid : u.id = t.id
      · rw [hid, List.count_cons_self, hahead, List.length_cons] at hu
        rw [hid, Function.update_self]
        omega
      · rw [List.count_cons_of_ne (Ne.symm hid)] at hu
        rw [Function.update_of_ne hid]
        exact hu
    refine ⟨?_, fun u hu => ?_⟩
    · rw [hhistory, moves_cons rfl, List.append_cons, ← funext hdrop]
      exact hprogress
    · rw [hhistory, movesBy_cons u.id rfl, hinTurn u hu]
      by_cases hid : u.id = t.id
      · rw [if_pos hid.symm, hid, Function.update_self, List.count_cons_self, hahead,
          List.take_succ_cons]
      · rw [if_neg (Ne.symm hid), Function.update_of_ne hid, List.count_cons_of_ne (Ne.symm hid)]

end Step

end PatchDynamics
