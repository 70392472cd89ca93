import PatchDynamics.Proofs.Schedule.Crew

/-!
# A step by any schedule

In a step each task makes twice as many calls as it has patches, and a schedule is complete when it
gives every task just so many turns. This file shows what all complete schedules have in common:

* `patches_after` — the patches at the end, which are the same for every schedule;
* `Smooth`, `smooth_of_complete` — no call fails, and the integrator hears of each patch in the turn
  of the last deposit on it;
* `runs_eq` — running whole tasks one after the other is a complete schedule.
-/

namespace PatchDynamics

section Step

variable {laws : ComputeId → ForceLaw} {grid : Grid} {base : List Patch} {tasks : List ForceTask}
  {p : Patch} {t : ForceTask}

/-- Whether a schedule gives each of some tasks as many turns as it makes calls, and no turn to
others. -/
def Complete (tasks : List ForceTask) (order : List ComputeId) : Prop :=
  (∀ id ∈ order, ∃ t ∈ tasks, t.id = id) ∧
  ∀ t ∈ tasks, order.count t.id = 2 * t.endpoints.length

instance (tasks : List ForceTask) (order : List ComputeId) : Decidable (Complete tasks order) :=
  inferInstanceAs (Decidable ((∀ id ∈ order, ∃ t ∈ tasks, t.id = id) ∧
    ∀ t ∈ tasks, order.count t.id = 2 * t.endpoints.length))

theorem length_script {t : ForceTask} (hsome : t.endpoints ≠ []) :
    (t.script (laws t.id) grid (positionsAt base)).length = 2 * t.endpoints.length := by
  have hforces := congrArg List.length
    (ForceTask.map_fst_forces (laws t.id) grid (positionsAt base) hsome)
  rw [List.length_map] at hforces
  rw [ForceTask.script, List.length_append, List.length_map, Move.deposits, List.length_map,
    hforces, Nat.two_mul]

/-! ## The end of a step -/

variable {all : List Move}

/-- When all calls are made, the handles on the forces of a patch are spent, each once. -/
theorem Equipped.spent (h : Equipped base tasks) (hall : all.Perm (scripts laws grid base tasks))
    (hp : p ∈ base) : ((depositsOn p.id all).map Prod.fst).Perm p.forceBox.handles := by
  rw [← List.append_nil all] at hall
  have haccount := h.account hall hp
  rwa [show depositsOn p.id [] = [] from rfl, List.map_nil, List.append_nil] at haccount

/-- When all calls are made, a patch has all deposits that it awaits. -/
theorem Equipped.full (h : Equipped base tasks) (hall : all.Perm (scripts laws grid base tasks))
    (hp : p ∈ base) : (depositsOn p.id all).length = p.forceBox.expected := by
  have hlength := (h.spent hall hp).length_eq
  rwa [List.length_map, Box.length_handles] at hlength

theorem Equipped.afterMoves_full (h : Equipped base tasks)
    (hall : all.Perm (scripts laws grid base tasks)) (hp : p ∈ base)
    (hphase : p.forceBox.phase = .opened) :
    p.afterMoves all = p.stepEnded (retrievals p.id all) (depositsOn p.id all) := by
  rw [Patch.afterMoves_of_begun (h.begun p hp hphase),
    Patch.Begun.during_of_not_lt (Nat.not_lt_of_le (Nat.le_of_eq (h.full hall hp).symm))]

/-- **What becomes of a patch in a step** does not depend on the order of the calls. -/
theorem Equipped.afterMoves_perm (h : Equipped base tasks)
    (hall : all.Perm (scripts laws grid base tasks)) (hp : p ∈ base) :
    p.afterMoves all = p.afterMoves (scripts laws grid base tasks) := by
  by_cases hphase : p.forceBox.phase = .opened
  -- the step ends with all deposits in, summed in the order of registration
  · have horderly := (h.begun p hp hphase).orderly
    have hdistinct := (h.spent hall hp).nodup_iff.mpr (Box.nodup_handles horderly.forces.nodup)
    have hcount : retrievals p.id all = retrievals p.id (scripts laws grid base tasks) :=
      hall.countP_eq _
    have hlisting : Box.listing p.forceBox.handles (depositsOn p.id all) =
        Box.listing p.forceBox.handles (depositsOn p.id (scripts laws grid base tasks)) :=
      Box.listing_perm p.forceBox.handles (hall.filterMap _) hdistinct
    rw [h.afterMoves_full hall hp hphase, h.afterMoves_full (.refl _) hp hphase, hcount,
      Patch.stepEnded, Patch.stepEnded, Patch.inOrder, Patch.inOrder, hlisting]
  · rw [Patch.afterMoves, Patch.afterMoves, if_neg hphase, if_neg hphase]

/-- The patches at the end of a step, after the calls of all tasks in whatever order. -/
def afterStep (laws : ComputeId → ForceLaw) (grid : Grid) (tasks : List ForceTask)
    (base : List Patch) : List Patch :=
  base.map (·.afterMoves (scripts laws grid base tasks))

/-- A patch that some call of the step deposits on is in its step. -/
theorem Equipped.begun_of_deposit (h : Equipped base tasks) {e : Endpoint} {d : ForceDeposit}
    (hm : .deposit e d ∈ scripts laws grid base tasks) :
    ∃ p ∈ base, p.id = e.patch ∧ p.forceBox.phase = .opened := by
  obtain ⟨t, ht, hscript⟩ := List.mem_flatMap.mp hm
  have he := (ForceTask.deposit_mem_script (h.working t ht) hscript).1
  obtain ⟨p, hp, hid, hphase, -⟩ := h.present t ht e he
  exact ⟨p, hp, hid, hphase⟩

/-! ## Complete schedules -/

section Complete

variable {s : Assembly} {order : List ComputeId}

variable (laws grid) in
/-- After the first turns of a complete schedule, each task has the rest of its calls left. -/
theorem advanced_early (h : Equipped base tasks) (hs : s.patches = base)
    (horder : Complete tasks order) {first second : List ComputeId}
    (hsplit : order = first ++ second) :
    Advanced laws grid base tasks (Crew.muster tasks s) [] (scriptOf laws grid base tasks)
      first := by
  refine (progress_muster h hs).after h (fun id hid => ?_) fun t ht => ?_
  · exact horder.1 id (hsplit ▸ List.mem_append_left _ hid)
  · have hcount := horder.2 t ht
    rw [hsplit, List.count_append] at hcount
    rw [scriptOf_eq h.computes ht, length_script (h.working t ht)]
    omega

variable (laws grid) in
/-- After a complete schedule, all calls are made. -/
theorem moves_perm (h : Equipped base tasks) (hs : s.patches = base)
    (horder : Complete tasks order) :
    (moves ((Crew.muster tasks s).history laws grid order)).Perm
      (scripts laws grid base tasks) := by
  have hadvanced := advanced_early laws grid h hs horder
    (List.append_nil order).symm
  have hnone : left tasks (fun id => (scriptOf laws grid base tasks id).drop (order.count id)) =
      [] := by
    refine List.flatMap_eq_nil_iff.mpr fun t ht => List.drop_eq_nil_of_le (Nat.le_of_eq ?_)
    rw [scriptOf_eq h.computes ht, length_script (h.working t ht), horder.2 t ht]
  have haccounted := hadvanced.progress.accounted
  rwa [hnone, List.append_nil] at haccounted

/-- After a complete schedule, each task has made its calls in order. -/
theorem movesBy_eq (h : Equipped base tasks) (hs : s.patches = base)
    (horder : Complete tasks order) (ht : t ∈ tasks) :
    movesBy t.id ((Crew.muster tasks s).history laws grid order) =
      t.script (laws t.id) grid (positionsAt base) := by
  have hadvanced := advanced_early laws grid h hs horder
    (List.append_nil order).symm
  rw [hadvanced.inTurn t ht, horder.2 t ht, scriptOf_eq h.computes ht]
  exact List.take_of_length_le (Nat.le_of_eq (length_script (h.working t ht)))

/-- **The patches after a complete schedule** are the same for every schedule. -/
theorem patches_after (h : Equipped base tasks) (hs : s.patches = base)
    (horder : Complete tasks order) :
    ((Crew.muster tasks s).after laws grid order).assembly.patches =
      afterStep laws grid tasks base := by
  have hadvanced := advanced_early laws grid h hs horder
    (List.append_nil order).symm
  rw [hadvanced.progress.patches, afterStep]
  exact List.map_congr_left fun p hp => h.afterMoves_perm (moves_perm laws grid h hs horder) hp

/-- **Each turn of a complete schedule** makes a call that goes well. -/
theorem turn_of_complete (h : Equipped base tasks) (hs : s.patches = base)
    (horder : Complete tasks order) {early late : List Turn} {turn : Turn}
    (hsplit : (Crew.muster tasks s).history laws grid order = early ++ turn :: late) :
    turn.outcome = .ok () ∧ ∃ m, turn.move = some m ∧
      turn.signals = announced base (moves early) m := by
  -- the turn is one of the schedule, after the first turns of it
  obtain ⟨first, id, rest, rfl, rfl, rfl, -⟩ := trace_eq_append_cons hsplit
  have hprogress := (advanced_early laws grid h hs horder rfl).progress
  obtain ⟨t, ht, rfl⟩ := horder.1 id (List.mem_append_right _ List.mem_cons_self)
  have hlength : first.count t.id < (scriptOf laws grid base tasks t.id).length := by
    have hcount := horder.2 t ht
    rw [List.count_append, List.count_cons_self] at hcount
    rw [scriptOf_eq h.computes ht, length_script (h.working t ht)]
    omega
  have hseen := (hprogress.turn h ht (List.drop_eq_getElem_cons hlength)).2
  have hseen : ((Crew.muster tasks s).after laws grid first).seen laws grid t.id = _ := hseen
  rw [show Crew.seen laws grid (List.foldl _ _ first) t.id = _ from hseen]
  exact ⟨rfl, _, rfl, rfl⟩

/-! ## What the integrator hears -/

namespace Turn

/-- Whether the turn deposits on a patch. -/
def Deposits (turn : Turn) (patch : PatchId) : Prop :=
  ∃ e d, turn.move = some (.deposit e d) ∧ e.patch = patch

end Turn

/-- Some turn deposits on a patch if the calls of the turns do. -/
theorem exists_deposits_iff {turns : List Turn} {patch : PatchId} :
    (∃ turn ∈ turns, turn.Deposits patch) ↔ depositsOn patch (moves turns) ≠ [] := by
  constructor
  · rintro ⟨turn, hturn, e, d, hmove, hpatch⟩
    have hmem : .deposit e d ∈ moves turns := List.mem_filterMap.mpr ⟨turn, hturn, hmove⟩
    exact List.ne_nil_of_mem (List.mem_filterMap.mpr ⟨_, hmem, if_pos hpatch⟩)
  · intro hsome
    obtain ⟨pair, hpair⟩ := List.exists_mem_of_ne_nil _ hsome
    obtain ⟨m, hm, hdeposit⟩ := List.mem_filterMap.mp hpair
    obtain ⟨turn, hturn, hmove⟩ := List.mem_filterMap.mp hm
    cases m with
    | retrieve e => cases hdeposit
    | deposit e d =>
      refine ⟨turn, hturn, e, d, hmove, ?_⟩
      by_contra hpatch
      rw [Move.deposit?, if_neg hpatch] at hdeposit
      cases hdeposit

/-- How the turns of a step go that began with some patches and left others. -/
structure Smooth (laws : ComputeId → ForceLaw) (grid : Grid) (base : List Patch)
    (tasks : List ForceTask) (turns : List Turn) (patches : List Patch) : Prop where
  /-- no call fails -/
  succeeds : ∀ turn ∈ turns, turn.outcome = .ok ()
  /-- each task retrieves and then deposits, patch by patch -/
  inTurn : ∀ t ∈ tasks, movesBy t.id turns = t.script (laws t.id) grid (positionsAt base)
  /-- each patch of each task gets a deposit -/
  deposits : ∀ t ∈ tasks, ∀ e ∈ t.endpoints, ∃ turn ∈ turns, turn.Deposits e.patch
  /-- the last deposit on a patch ends its step, and the integrator hears of it -/
  closes : ∀ early turn late, turns = early ++ turn :: late → ∀ p ∈ patches,
    turn.Deposits p.id → (¬ ∃ u ∈ late, u.Deposits p.id) →
    turn.signals = [.forcesReady p.id p.step p.sums, .boxesClosed p.id]
  /-- other than that, the integrator hears nothing -/
  quiet : ∀ early turn late, turns = early ++ turn :: late →
    (∀ p ∈ patches, turn.Deposits p.id → ∃ u ∈ late, u.Deposits p.id) → turn.signals = []

/-- The deposits on a patch before, in and after a turn that deposits on it. -/
theorem depositsOn_split (early late : List Turn) {turn : Turn} {e : Endpoint} {d : ForceDeposit}
    (hmove : turn.move = some (.deposit e d)) (hpatch : e.patch = p.id) :
    depositsOn p.id (moves (early ++ turn :: late)) =
      depositsOn p.id (moves early) ++ [(e.forces, d)] ++ depositsOn p.id (moves late) := by
  have hmoves : moves (early ++ turn :: late) =
      (moves early ++ [.deposit e d]) ++ moves late := by
    rw [moves, List.filterMap_append, List.filterMap_cons_some hmove, List.append_assoc]
    rfl
  rw [hmoves, depositsOn_append, Patch.depositsOn_deposit hpatch]

/-- What the integrator hears of the last deposit on a patch is what the patch has in the end. -/
theorem announcement_of_last (h : Equipped base tasks) {all : List Move}
    (hall : all.Perm (scripts laws grid base tasks)) (hp : p ∈ base)
    (hphase : p.forceBox.phase = .opened) :
    Patch.announcement p.id (p.sums.addAll (p.inOrder (depositsOn p.id all))) =
      let q := p.afterMoves (scripts laws grid base tasks)
      [.forcesReady q.id q.step q.sums, .boxesClosed q.id] := by
  rw [← h.afterMoves_perm hall hp, h.afterMoves_full hall hp hphase, Patch.announcement,
    Patch.step_addAll, (h.begun p hp hphase).stands.summed]
  rfl

/-- **A turn that deposits**: the integrator hears of the patch if no deposit on it is to come, and
of nothing otherwise. -/
theorem deposit_turn (h : Equipped base tasks) (hs : s.patches = base)
    (horder : Complete tasks order) {early late : List Turn} {turn : Turn}
    (hsplit : (Crew.muster tasks s).history laws grid order = early ++ turn :: late)
    {e : Endpoint} {d : ForceDeposit} (hdeposit : turn.move = some (.deposit e d)) :
    ∃ p ∈ base, p.id = e.patch ∧
      (depositsOn p.id (moves late) = [] →
        let q := p.afterMoves (scripts laws grid base tasks)
        turn.signals = [.forcesReady q.id q.step q.sums, .boxesClosed q.id]) ∧
      (depositsOn p.id (moves late) ≠ [] → turn.signals = []) := by
  obtain ⟨-, m, hmove, hsignals⟩ := turn_of_complete h hs horder hsplit
  obtain rfl := Option.some.inj (hmove.symm.trans hdeposit)
  have hall := moves_perm laws grid h hs horder
  rw [hsplit] at hall
  have hscript : .deposit e d ∈ scripts laws grid base tasks := by
    refine hall.mem_iff.mp (List.mem_filterMap.mpr ⟨turn, ?_, hmove⟩)
    exact List.mem_append_right _ List.mem_cons_self
  obtain ⟨p, hp, hid, hphase⟩ := h.begun_of_deposit hscript
  have hsame := depositsOn_split early late hmove hid.symm
  have hlength := h.full hall hp
  rw [hsignals, announced_deposit h.distinct hp hid]
  refine ⟨p, hp, hid, fun hnone => ?_, fun hmore => if_neg ?_⟩
  · -- this deposit is the last one that the patch awaits
    rw [hnone, List.append_nil] at hsame
    rw [hsame, List.length_append, List.length_singleton] at hlength
    rw [if_pos hlength, ← hsame]
    exact announcement_of_last h hall hp hphase
  · have hpos := List.length_pos_of_ne_nil hmore
    rw [hsame, List.length_append, List.length_append, List.length_singleton] at hlength
    omega

variable (laws grid) in
/-- **A step goes smoothly** by any complete schedule. -/
theorem smooth_of_complete (h : Equipped base tasks) (hs : s.patches = base)
    (horder : Complete tasks order) :
    Smooth laws grid base tasks ((Crew.muster tasks s).history laws grid order)
      (afterStep laws grid tasks base) where
  succeeds := by
    intro turn hturn
    obtain ⟨early, late, hsplit⟩ := List.append_of_mem hturn
    exact (turn_of_complete h hs horder hsplit).1
  inTurn := fun t ht => movesBy_eq h hs horder ht
  deposits := by
    intro t ht e he
    rw [← ForceTask.map_fst_forces (laws t.id) grid (positionsAt base) (h.working t ht)] at he
    obtain ⟨⟨e, list⟩, hmem, rfl⟩ := List.mem_map.mp he
    have hscript : .deposit e ⟨(laws t.id).channel, list⟩ ∈ scripts laws grid base tasks :=
      List.mem_flatMap.mpr ⟨t, ht, List.mem_append_right _ (List.mem_map_of_mem hmem)⟩
    obtain ⟨turn, hturn, hmove⟩ :=
      List.mem_filterMap.mp ((moves_perm laws grid h hs horder).mem_iff.mpr hscript)
    exact ⟨turn, hturn, e, _, hmove, rfl⟩
  closes := by
    rintro early turn late hsplit q hq ⟨e, d, hmove, hpatch⟩ hlast
    obtain ⟨p, hp, rfl⟩ := List.mem_map.mp hq
    -- the patch that the deposit is on is the one with its number
    obtain ⟨p', hp', hid, hheard, -⟩ := deposit_turn h hs horder hsplit hmove
    rw [Patch.id_afterMoves] at hpatch hlast
    obtain rfl := List.inj_on_of_nodup_map h.distinct hp' hp (hid.trans hpatch)
    exact hheard (Decidable.not_not.mp (mt exists_deposits_iff.mpr hlast))
  quiet := by
    intro early turn late hsplit hmore
    obtain ⟨-, m, hmove, hsignals⟩ := turn_of_complete h hs horder hsplit
    cases m with
    | retrieve e => exact hsignals
    | deposit e d =>
      obtain ⟨p, hp, hid, -, hquiet⟩ := deposit_turn h hs horder hsplit hmove
      have hlater := hmore (p.afterMoves (scripts laws grid base tasks)) (List.mem_map_of_mem hp)
      rw [Patch.id_afterMoves] at hlater
      exact hquiet (exists_deposits_iff.mp (hlater ⟨e, d, hmove, hid.symm⟩))

end Complete

/-- The patch that a signal is about. -/
def Signal.patch : Signal → PatchId
  | .forcesReady patch _ _ => patch
  | .boxesClosed patch => patch

/-- A deposit on a patch, if there is one, has a last one. -/
theorem exists_last_deposit {turns : List Turn} {patch : PatchId}
    (hsome : ∃ turn ∈ turns, turn.Deposits patch) :
    ∃ early turn late, turns = early ++ turn :: late ∧ turn.Deposits patch ∧
      ¬ ∃ u ∈ late, u.Deposits patch := by
  induction turns with
  | nil =>
    obtain ⟨turn, hturn, -⟩ := hsome
    cases hturn
  | cons first turns ih =>
    by_cases hlater : ∃ turn ∈ turns, turn.Deposits patch
    · obtain ⟨early, turn, late, rfl, hturn⟩ := ih hlater
      exact ⟨first :: early, turn, late, rfl, hturn⟩
    · obtain ⟨turn, hturn, hdeposits⟩ := hsome
      rcases List.mem_cons.mp hturn with rfl | hturn
      · exact ⟨[], turn, turns, rfl, hdeposits, hlater⟩
      · exact absurd ⟨turn, hturn, hdeposits⟩ hlater

namespace Smooth

variable {turns : List Turn} {patches : List Patch}

/-- A turn other than the one with the last deposit on a patch tells nothing about it. -/
theorem silent (h : Smooth laws grid base tasks turns patches) {early late : List Turn}
    {turn : Turn} (hsplit : turns = early ++ turn :: late) {patch : PatchId}
    (hother : turn.Deposits patch → ∃ u ∈ late, u.Deposits patch) :
    turn.signals.filter (fun signal => signal.patch = patch) = [] := by
  by_cases hlast : ∃ q ∈ patches, turn.Deposits q.id ∧ ¬ ∃ u ∈ late, u.Deposits q.id
  · obtain ⟨q, hq, hdeposits, hnone⟩ := hlast
    have hne : q.id ≠ patch := fun heq => hnone (heq ▸ hother (heq ▸ hdeposits))
    rw [h.closes early turn late hsplit q hq hdeposits hnone]
    simp [Signal.patch, hne]
  · rw [h.quiet early turn late hsplit fun q hq hdeposits => ?_]
    · rfl
    · by_contra hnone
      exact hlast ⟨q, hq, hdeposits, hnone⟩

/-- **What the integrator hears of a patch** during a step: once that its forces are final, and then
once that its boxes are closed. -/
theorem heard (h : Smooth laws grid base tasks turns patches) (hp : p ∈ patches) (ht : t ∈ tasks)
    {e : Endpoint} (he : e ∈ t.endpoints) (hid : p.id = e.patch) :
    (turns.flatMap Turn.signals).filter (fun signal => signal.patch = p.id) =
      [.forcesReady p.id p.step p.sums, .boxesClosed p.id] := by
  have hsome := h.deposits t ht e he
  rw [← hid] at hsome
  obtain ⟨early, turn, late, hsplit, hdeposits, hlast⟩ := exists_last_deposit hsome
  -- neither the turns before the last deposit on the patch nor those after it tell anything about
  -- it
  have hearly : early.flatMap (fun u => u.signals.filter fun signal => signal.patch = p.id) =
      [] := by
    refine List.flatMap_eq_nil_iff.mpr fun u hu => ?_
    obtain ⟨before, after, rfl⟩ := List.append_of_mem hu
    rw [List.append_assoc] at hsplit
    exact h.silent hsplit fun _ => ⟨turn, List.mem_append_right _ List.mem_cons_self, hdeposits⟩
  have hlate : late.flatMap (fun u => u.signals.filter fun signal => signal.patch = p.id) = [] := by
    refine List.flatMap_eq_nil_iff.mpr fun u hu => ?_
    obtain ⟨before, after, rfl⟩ := List.append_of_mem hu
    rw [List.append_cons, ← List.append_assoc] at hsplit
    refine h.silent hsplit fun hu => absurd ⟨u, ?_, hu⟩ hlast
    exact List.mem_append_right _ List.mem_cons_self
  rw [List.filter_flatMap, hsplit, List.flatMap_append, List.flatMap_cons, hearly, hlate,
    h.closes early turn late hsplit p hp hdeposits hlast]
  simp [Signal.patch]

end Smooth

/-! ## Whole tasks -/

namespace Crew

variable {c : Crew} {id : ComputeId}

theorem after_append (first second : List ComputeId) :
    c.after laws grid (first ++ second) = (c.after laws grid first).after laws grid second :=
  List.foldl_append ..

/-- A turn that goes well is a move of the worker. -/
theorem move_of_seen (hseen : (c.seen laws grid id).outcome = .ok ()) :
    (c.workers id).move (laws id) grid c.assembly =
      (.ok ((c.turn laws grid id).workers id), (c.turn laws grid id).assembly) := by
  rw [seen] at hseen
  rw [turn]
  generalize (c.workers id).move (laws id) grid c.assembly = result at hseen
  rcases result with ⟨_ | w, s⟩
  · cases hseen
  · dsimp only
    rw [Function.update_self]

/-- A turn is no other task's. -/
theorem workers_turn_of_ne {other : ComputeId} (hne : other ≠ id) :
    (c.turn laws grid id).workers other = c.workers other := by
  rw [turn]
  split
  · exact Function.update_of_ne hne _ _
  · rfl

theorem workers_after_of_not_mem {order : List ComputeId} (hid : id ∉ order) :
    (c.after laws grid order).workers id = c.workers id := by
  induction order generalizing c with
  | nil => rfl
  | cons first order ih =>
    rw [List.mem_cons, not_or] at hid
    have hrest := ih (c := c.turn laws grid first) hid.2
    rw [workers_turn_of_ne hid.1] at hrest
    exact hrest

end Crew

/-- A task that takes all its turns in a row finishes its run. -/
theorem Progress.finish (h : Equipped base tasks) {c : Crew} {past : List Move}
    {ahead : ComputeId → List Move} (hprogress : Progress laws grid base tasks c past ahead)
    (ht : t ∈ tasks) :
    (c.workers t.id).finish (laws t.id) grid c.assembly =
      (.ok (t.counts (laws t.id) grid (positionsAt base)),
        (c.after laws grid (List.replicate (ahead t.id).length t.id)).assembly) := by
  generalize hmoves : ahead t.id = l
  induction l generalizing c past ahead with
  | nil =>
    have hfollows := hprogress.follows t ht
    rw [hmoves] at hfollows
    rw [hfollows.finished]
    rfl
  | cons m rest ih =>
    obtain ⟨hturn, hseen⟩ := hprogress.turn h ht hmoves
    have hfinish := ih hturn (Function.update_self ..)
    -- the first turn is the next move of the task, and the others finish the run
    have hmove := Crew.move_of_seen (congrArg Turn.outcome hseen)
    rw [Worker.finish_eq_move, bind_of_ok hmove, hfinish]
    rfl

/-- The schedule that gives tasks all their turns in a row, one task after the other. -/
def inRow (order : List ForceTask) : List ComputeId :=
  order.flatMap fun t => List.replicate (2 * t.endpoints.length) t.id

theorem inRow_cons (t : ForceTask) (order : List ForceTask) :
    inRow (t :: order) = List.replicate (2 * t.endpoints.length) t.id ++ inRow order :=
  List.flatMap_cons

theorem count_inRow {order : List ForceTask} (computes : (order.map ForceTask.id).Nodup)
    (ht : t ∈ order) : (inRow order).count t.id = 2 * t.endpoints.length := by
  have hothers : ∀ l : List ForceTask, t.id ∉ l.map ForceTask.id → (inRow l).count t.id = 0 := by
    intro l hl
    refine List.count_eq_zero.mpr fun hmem => ?_
    obtain ⟨u, hu, hid⟩ := List.mem_flatMap.mp hmem
    exact hl (List.eq_of_mem_replicate hid ▸ List.mem_map_of_mem hu)
  induction order with
  | nil => cases ht
  | cons u order ih =>
    rw [List.map_cons, List.nodup_cons] at computes
    rw [inRow_cons, List.count_append]
    rcases List.mem_cons.mp ht with rfl | ht
    · rw [List.count_replicate_self, hothers order computes.1, Nat.add_zero]
    · have hne : u.id ≠ t.id := fun heq => computes.1 (heq ▸ List.mem_map_of_mem ht)
      rw [List.count_replicate, if_neg (by simpa using hne), ih computes.2 ht, Nat.zero_add]

/-- Tasks in a row are a complete schedule, in whatever order the tasks come. -/
theorem complete_inRow {order : List ForceTask} (computes : (tasks.map ForceTask.id).Nodup)
    (hperm : order.Perm tasks) : Complete tasks (inRow order) := by
  refine ⟨fun id hid => ?_, fun t ht => ?_⟩
  · obtain ⟨t, ht, hmem⟩ := List.mem_flatMap.mp hid
    exact ⟨t, hperm.mem_iff.mp ht, (List.eq_of_mem_replicate hmem).symm⟩
  · exact count_inRow ((hperm.map _).nodup_iff.mpr computes) (hperm.mem_iff.mpr ht)

/-- Some tasks run one after the other while the rest wait, and each counts its pairs. -/
theorem Progress.runs (h : Equipped base tasks) {order : List ForceTask} {c : Crew}
    {past : List Move} {ahead : ComputeId → List Move}
    (hprogress : Progress laws grid base tasks c past ahead)
    (hsub : ∀ t ∈ order, t ∈ tasks) (computes : (order.map ForceTask.id).Nodup)
    (hstart : ∀ t ∈ order, c.workers t.id = Worker.start t ∧
      (ahead t.id).length = 2 * t.endpoints.length) :
    order.mapM (fun t => t.run (laws t.id) grid) c.assembly =
      (.ok (order.map fun t => t.counts (laws t.id) grid (positionsAt base)),
        (c.after laws grid (inRow order)).assembly) := by
  induction order generalizing c past ahead with
  | nil => rfl
  | cons t order ih =>
    rw [List.forall_mem_cons] at hsub hstart
    rw [List.map_cons, List.nodup_cons] at computes
    obtain ⟨⟨hworker, hlength⟩, hstart⟩ := hstart
    have hrow : ∀ id ∈ List.replicate (2 * t.endpoints.length) t.id, ∃ u ∈ tasks, u.id = id :=
      fun id hid => ⟨t, hsub.1, (List.eq_of_mem_replicate hid).symm⟩
    -- the first task finishes its run
    have hfinish := hprogress.finish h hsub.1
    rw [hworker, hlength, ← Worker.run_eq_finish _ _ (h.working t hsub.1)] at hfinish
    -- the others have not begun
    have hafter := (hprogress.after h hrow fun u hu => by
      by_cases hid : u.id = t.id
      · exact Nat.le_of_eq (by rw [hid, List.count_replicate_self, hlength])
      · rw [List.count_eq_zero.mpr fun hmem => hid (List.eq_of_mem_replicate hmem)]
        exact Nat.zero_le _).progress
    have hrest := ih hafter hsub.2 computes.2 fun u hu => by
      have hne : u.id ≠ t.id := fun heq => computes.1 (heq ▸ List.mem_map_of_mem hu)
      have hnot : u.id ∉ List.replicate (2 * t.endpoints.length) t.id :=
        fun hmem => hne (List.eq_of_mem_replicate hmem)
      rw [Crew.workers_after_of_not_mem hnot, List.count_eq_zero.mpr hnot]
      exact hstart u hu
    rw [List.mapM_cons, bind_of_ok hfinish, bind_of_ok hrest, inRow_cons, Crew.after_append]
    rfl

/-- **Running whole tasks one after the other**, in whatever order, is a complete schedule, and each
task counts the pairs that it finds at the positions of the beginning. -/
theorem runs_counts (h : Equipped base tasks) {s : Assembly} (hs : s.patches = base)
    {order : List ForceTask} (hperm : order.Perm tasks) :
    order.mapM (fun t => t.run (laws t.id) grid) s =
      (.ok (order.map fun t => t.counts (laws t.id) grid (positionsAt base)),
        ((Crew.muster tasks s).after laws grid (inRow order)).assembly) := by
  refine (progress_muster h hs).runs h (fun t ht => hperm.mem_iff.mp ht)
    ((hperm.map _).nodup_iff.mpr h.computes) fun t ht => ?_
  have ht := hperm.mem_iff.mp ht
  refine ⟨?_, ?_⟩
  · rw [Crew.muster]
    dsimp only
    rw [find?_of_mem h.computes ht rfl]
  · rw [scriptOf_eq h.computes ht, length_script (h.working t ht)]

/-- Running whole tasks one after the other does not fail. -/
theorem runs_eq (h : Equipped base tasks) {s : Assembly} (hs : s.patches = base)
    {order : List ForceTask} (hperm : order.Perm tasks) :
    ∃ counts, order.mapM (fun t => t.run (laws t.id) grid) s =
      (.ok counts, ((Crew.muster tasks s).after laws grid (inRow order)).assembly) :=
  ⟨_, runs_counts h hs hperm⟩

end Step

end PatchDynamics
