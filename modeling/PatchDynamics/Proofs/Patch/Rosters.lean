import PatchDynamics.Proofs.Schedule.Independence

/-!
# Rosters and boxes

A patch lists the computes that are registered with each of its boxes, and so does the box. Both are
changed by the same two calls, and this file shows that they never differ:

* `Roll` — both lists for each box, with the number of the patch; `enter` and `leave` are what a
  registration and its end make of it;
* `roll_perform` — all other calls keep the roll;
* `register_cases`, `unregister_cases` — what the two calls do to it;
* `Reached.mirrors` — the lists of a patch are those of its boxes.
-/

namespace PatchDynamics

namespace Box

variable {P D : Type} {b : Box P D}

/-- A call that leaves the handles out leaves the computes. -/
theorem tasks_perform (nodup : b.tasks.Nodup) {c : Call P D}
    (hstays : ∀ hs, (b.event c).handlesAfter hs = hs) : (b.perform c).box.tasks = b.tasks := by
  rw [← map_task_handles, handles_perform nodup, hstays, map_task_handles]

theorem tasks_retrieve (nodup : b.tasks.Nodup) (h : Handle) :
    (b.retrieve h).box.tasks = b.tasks :=
  tasks_perform nodup (c := .retrieve h) fun _ => rfl

theorem tasks_deposit (nodup : b.tasks.Nodup)
    (check : ComputeId → P → D → Except Refusal Unit) (h : Handle) (value : D) :
    (b.deposit check h value).box.tasks = b.tasks :=
  tasks_perform nodup (c := .deposit check h value) fun _ => rfl

/-- A registration that is not refused adds its compute at the end. -/
theorem register_enters {task : ComputeId} (hfree : task ∉ b.tasks) :
    ∃ handle box, b.register task = ⟨.ok handle, none, box⟩ ∧ box.tasks = b.tasks ++ [task] := by
  have htasks := tasks_register hfree
  rw [register, if_neg hfree] at htasks ⊢
  exact ⟨_, _, rfl, htasks⟩

/-- The end of a registration is refused, or takes its compute out. -/
theorem unregister_leaves (b : Box P D) (handle : Handle) :
    (∃ r, b.unregister handle = b.refuse r) ∨
      ∃ box, b.unregister handle = ⟨.ok (), none, box⟩ ∧
        box.tasks = b.tasks.filter (· ≠ handle.task) := by
  cases live : b.live? handle with
  | none => exact .inl ⟨_, unregister_of_unknown live⟩
  | some r =>
    have htasks := tasks_unregister live
    rw [unregister, live] at htasks
    exact .inr ⟨_, by rw [unregister, live], htasks⟩

end Box

/-! ## Rolls -/

/-- The computes registered with the boxes of a patch. -/
structure Roll where
  /-- the patch -/
  id : PatchId
  /-- the patch's own list for each box -/
  own : BoxKind → List ComputeId
  /-- the list of each box -/
  boxes : BoxKind → List ComputeId

namespace Roll

/-- A compute comes last in both lists for a box. -/
def enter (kind : BoxKind) (task : ComputeId) (r : Roll) : Roll :=
  { r with
    own := Function.update r.own kind (r.own kind ++ [task])
    boxes := Function.update r.boxes kind (r.boxes kind ++ [task]) }

/-- A compute is taken out of both lists for a box. -/
def leave (kind : BoxKind) (task : ComputeId) (r : Roll) : Roll :=
  { r with
    own := Function.update r.own kind ((r.own kind).filter (· ≠ task))
    boxes := Function.update r.boxes kind ((r.boxes kind).filter (· ≠ task)) }

variable {r : Roll}

theorem own_enter (h : r.own = r.boxes) (kind : BoxKind) (task : ComputeId) :
    (r.enter kind task).own = (r.enter kind task).boxes := by
  rw [enter]
  dsimp only
  rw [h]

theorem own_leave (h : r.own = r.boxes) (kind : BoxKind) (task : ComputeId) :
    (r.leave kind task).own = (r.leave kind task).boxes := by
  rw [leave]
  dsimp only
  rw [h]

end Roll

namespace Patch

variable {p q : Patch} {phase : Phase} {kind : BoxKind} {task : ComputeId}

/-- The computes that the patch lists for one of its boxes. -/
def ownTasks (p : Patch) : BoxKind → List ComputeId
  | .position => p.readers.ids
  | .avgPosition => p.averageReaders.ids
  | .force => p.contributors.ids

/-- The computes that are registered with one of the boxes. -/
def boxTasks (p : Patch) : BoxKind → List ComputeId
  | .position => p.positionBox.tasks
  | .avgPosition => p.averageBox.tasks
  | .force => p.forceBox.tasks

/-- The roll of a patch. -/
def roll (p : Patch) : Roll := ⟨p.id, p.ownTasks, p.boxTasks⟩

/-- The patch lists for each box what the box lists. -/
def Mirrors (p : Patch) : Prop := p.ownTasks = p.boxTasks

theorem mirrors_new (id : PatchId) (serial : Nat) (averaged : Bool) :
    (new id serial averaged).Mirrors := by
  funext kind
  cases kind <;> rfl

theorem Mirrors.of_roll (h : p.Mirrors) (hroll : q.roll = p.roll) : q.Mirrors :=
  (congrArg Roll.own hroll).trans (h.trans (congrArg Roll.boxes hroll).symm)

/-- Patches with the same own lists have the same roll, if their boxes list the same. -/
theorem roll_congr (hid : q.id = p.id) (hown : q.ownTasks = p.ownTasks)
    (hposition : q.positionBox.tasks = p.positionBox.tasks)
    (haverage : q.averageBox.tasks = p.averageBox.tasks)
    (hforce : q.forceBox.tasks = p.forceBox.tasks) : q.roll = p.roll := by
  have hboxes : q.boxTasks = p.boxTasks := by
    funext kind
    cases kind
    · exact hposition
    · exact haverage
    · exact hforce
  rw [roll, roll, hid, hown, hboxes]

theorem Edited.roll (h : p.Edited q) : q.roll = p.roll := by
  obtain ⟨_, _, _, _, rfl⟩ := h
  rfl

/-- A patch that begins its step keeps its roll. -/
theorem roll_begun (p : Patch) (tag : UInt32) : (p.begun tag).roll = p.roll := by
  refine roll_congr rfl rfl rfl ?_ rfl
  change (if p.averaged then p.averageBox.start p.averages else p.averageBox).tasks = _
  split <;> rfl

/-- A patch whose step ends keeps its roll, if its box of forces does. -/
theorem roll_ended (p : Patch) {forces : Box ForceFrame ForceDeposit}
    (hforces : forces.tasks = p.forceBox.tasks) (deposits : List ForceDeposit) :
    (p.ended forces deposits).roll = p.roll :=
  roll_congr rfl rfl rfl rfl hforces

theorem Stands.roll_positionsReady (h : p.Stands phase) (tag : UInt32) :
    (p.positionsReady tag).patch.roll = p.roll := by
  cases phase with
  | closed => exact absurd rfl h.resting
  | opened =>
    rw [positionsReady_of_busy h]
    rfl
  | idle =>
    by_cases hnone : p.forceBox.expected = 0
    · rw [positionsReady_of_unattended h tag hnone]
      refine (roll_ended (p.begun tag) ?_ []).trans (p.roll_begun tag)
      exact Box.tasks_shut (p.forceBox.start ⟨p.id, p.step + 1, p.size⟩)
    · rw [positionsReady_of_attended h tag hnone]
      exact p.roll_begun tag

theorem Stands.roll_deposit (h : p.Stands phase) (ho : p.Orderly) (handle : Handle)
    (d : ForceDeposit) : (p.deposit handle d).patch.roll = p.roll := by
  have htasks := Box.tasks_deposit ho.forces.nodup (fitsFrame p.id) handle d
  rcases p.forceBox.deposit_standing (fitsFrame p.id) handle d with
    ⟨hc, -⟩ | ⟨c, hc, -, -, hphase, -⟩
  · rw [Patch.deposit, afterForces_of_none hc]
    exact roll_congr rfl rfl rfl rfl htasks
  · obtain rfl : phase = .opened := h.force_phase.symm.trans hphase
    rw [Patch.deposit, afterForces_of_completion h.reading hc]
    exact p.roll_ended htasks _

theorem Orderly.roll_retrieve (ho : p.Orderly) (kind : BoxKind) (handle : Handle) :
    (p.perform (.retrieve kind handle)).2.roll = p.roll := by
  cases kind with
  | position => exact roll_congr rfl rfl (Box.tasks_retrieve ho.positions.nodup handle) rfl rfl
  | avgPosition => exact roll_congr rfl rfl rfl (Box.tasks_retrieve ho.averages.nodup handle) rfl
  | force =>
    rw [Patch.perform, retrieveFrame, afterForces_of_none (p.forceBox.completion_retrieve handle)]
    exact roll_congr rfl rfl rfl rfl (Box.tasks_retrieve ho.forces.nodup handle)

/-- **All calls but registrations and their ends keep the roll.** -/
theorem Stands.roll_perform (h : p.Stands phase) (ho : p.Orderly) {c : Call}
    (hregister : ∀ kind task, c ≠ .register kind task)
    (hunregister : ∀ kind handle, c ≠ .unregister kind handle) :
    (p.perform c).2.roll = p.roll := by
  cases c with
  | register kind task => exact absurd rfl (hregister kind task)
  | unregister kind handle => exact absurd rfl (hunregister kind handle)
  | positionsReady tag => exact h.roll_positionsReady tag
  | retrieve kind handle => exact ho.roll_retrieve kind handle
  | deposit handle d => exact h.roll_deposit ho handle d
  | depositIntoPositions handle =>
    obtain ⟨r, hr⟩ := Box.deposit_of_read h.position_mode Box.acceptAll handle ()
    rw [Patch.perform, depositIntoPositions, hr]
    rfl
  | depositIntoAverages handle =>
    obtain ⟨r, hr⟩ := Box.deposit_of_read h.average_mode Box.acceptAll handle ()
    rw [Patch.perform, depositIntoAverages, hr]
    rfl
  | replaceAtoms directory atoms => exact (edited_replaceAtoms directory p atoms).roll
  | editAtoms f => exact (p.edited_editAtoms f).2.roll
  | setAverages averages => exact (p.edited_setAverages averages).2.roll
  | setFixedAtoms count => exact (p.edited_setFixedAtoms count).roll

/-! ## Registrations -/

/-- Only the lists for one box differ. -/
theorem roll_of_update {own boxes : List ComputeId} (hid : q.id = p.id)
    (hown : q.ownTasks kind = own) (hbox : q.boxTasks kind = boxes)
    (hothers : ∀ other, other ≠ kind →
      q.ownTasks other = p.ownTasks other ∧ q.boxTasks other = p.boxTasks other) :
    q.roll =
      ⟨p.id, Function.update p.ownTasks kind own, Function.update p.boxTasks kind boxes⟩ := by
  rw [roll, hid]
  refine congrArg₂ (Roll.mk p.id) (funext fun other => ?_) (funext fun other => ?_)
  · by_cases hsame : other = kind
    · rw [hsame, Function.update_self, hown]
    · rw [Function.update_of_ne hsame, (hothers other hsame).1]
  · by_cases hsame : other = kind
    · rw [hsame, Function.update_self, hbox]
    · rw [Function.update_of_ne hsame, (hothers other hsame).2]

/-- **A registration** is refused to a compute that the box lists, and enters any other compute. -/
theorem register_cases (h : p.Stands phase) (hm : p.Mirrors) (kind : BoxKind) (task : ComputeId) :
    task ∈ p.boxTasks kind ∧
        p.register kind task = p.refuse (.alreadyRegistered ⟨p.id, kind⟩ task) ∨
      task ∉ p.boxTasks kind ∧ ∃ handle new, p.register kind task = ⟨.ok handle, [], new⟩ ∧
        new.roll = p.roll.enter kind task := by
  by_cases hmem : task ∈ p.boxTasks kind
  · refine .inl ⟨hmem, ?_⟩
    cases kind with
    | position =>
      have hlabel : p.positionBox.label = ⟨p.id, .position⟩ :=
        congrArg Box.Standing.label h.position
      rw [register, Box.register_of_mem hmem, hlabel]
      rfl
    | avgPosition =>
      have hlabel : p.averageBox.label = ⟨p.id, .avgPosition⟩ :=
        congrArg Box.Standing.label h.average
      rw [register, Box.register_of_mem hmem, hlabel]
      rfl
    | force =>
      have hlabel : p.forceBox.label = ⟨p.id, .force⟩ := congrArg Box.Standing.label h.force
      rw [register, Box.register_of_mem hmem, hlabel]
      rfl
  · refine .inr ⟨hmem, ?_⟩
    -- the patch's own list does not hold the compute, as the box's does not
    have hown : task ∉ p.ownTasks kind := by rwa [hm]
    cases kind with
    | position =>
      obtain ⟨handle, box, hbox, htasks⟩ := Box.register_enters hmem
      have hreply : p.register .position task = ⟨.ok handle, [], { p with
          positionBox := box, readers := (p.readers.insert task).2 }⟩ := by
        rw [register, hbox]
      refine ⟨handle, _, hreply, roll_of_update rfl ?_ htasks ?_⟩
      · exact congrArg (fun r => r.2.ids) (Roster.insert_on_list hown)
      · rintro (_ | _ | _) hother <;> first | exact absurd rfl hother | exact ⟨rfl, rfl⟩
    | avgPosition =>
      obtain ⟨handle, box, hbox, htasks⟩ := Box.register_enters hmem
      have hreply : p.register .avgPosition task = ⟨.ok handle, [], { p with
          averageBox := box, averageReaders := (p.averageReaders.insert task).2 }⟩ := by
        rw [register, hbox]
      refine ⟨handle, _, hreply, roll_of_update rfl ?_ htasks ?_⟩
      · exact congrArg (fun r => r.2.ids) (Roster.insert_on_list hown)
      · rintro (_ | _ | _) hother <;> first | exact absurd rfl hother | exact ⟨rfl, rfl⟩
    | force =>
      obtain ⟨handle, box, hbox, htasks⟩ := Box.register_enters hmem
      have hreply : p.register .force task = ⟨.ok handle, [], { p with
          forceBox := box, contributors := (p.contributors.insert task).2 }⟩ := by
        rw [register, hbox]
      refine ⟨handle, _, hreply, roll_of_update rfl ?_ htasks ?_⟩
      · exact congrArg (fun r => r.2.ids) (Roster.insert_on_list hown)
      · rintro (_ | _ | _) hother <;> first | exact absurd rfl hother | exact ⟨rfl, rfl⟩

/-- **The end of a registration** is refused, or takes the compute out. -/
theorem unregister_cases (p : Patch) (kind : BoxKind) (handle : Handle) :
    (∃ r, p.unregister kind handle = p.refuse r) ∨
      ∃ new, p.unregister kind handle = ⟨.ok (), [], new⟩ ∧
        new.roll = p.roll.leave kind handle.task := by
  cases kind with
  | position =>
    rcases p.positionBox.unregister_leaves handle with ⟨r, hr⟩ | ⟨box, hbox, htasks⟩
    · exact .inl ⟨r, by rw [unregister, hr]; rfl⟩
    · have hreply : p.unregister .position handle = ⟨.ok (), [], { p with
          positionBox := box, readers := (p.readers.remove handle.task).2 }⟩ := by
        rw [unregister, hbox]
      refine .inr ⟨_, hreply, roll_of_update rfl rfl htasks ?_⟩
      rintro (_ | _ | _) hother <;> first | exact absurd rfl hother | exact ⟨rfl, rfl⟩
  | avgPosition =>
    rcases p.averageBox.unregister_leaves handle with ⟨r, hr⟩ | ⟨box, hbox, htasks⟩
    · exact .inl ⟨r, by rw [unregister, hr]; rfl⟩
    · have hreply : p.unregister .avgPosition handle = ⟨.ok (), [], { p with
          averageBox := box, averageReaders := (p.averageReaders.remove handle.task).2 }⟩ := by
        rw [unregister, hbox]
      refine .inr ⟨_, hreply, roll_of_update rfl rfl htasks ?_⟩
      rintro (_ | _ | _) hother <;> first | exact absurd rfl hother | exact ⟨rfl, rfl⟩
  | force =>
    rcases p.forceBox.unregister_leaves handle with ⟨r, hr⟩ | ⟨box, hbox, htasks⟩
    · exact .inl ⟨r, by rw [unregister, hr]; rfl⟩
    · have hreply : p.unregister .force handle = ⟨.ok (), [], { p with
          forceBox := box, contributors := (p.contributors.remove handle.task).2 }⟩ := by
        rw [unregister, hbox]
      refine .inr ⟨_, hreply, roll_of_update rfl rfl htasks ?_⟩
      rintro (_ | _ | _) hother <;> first | exact absurd rfl hother | exact ⟨rfl, rfl⟩

/-! ## The lists agree -/

/-- **One call keeps the lists alike.** -/
theorem Mirrors.perform (hm : p.Mirrors) (h : p.Stands phase) (ho : p.Orderly) (c : Call) :
    (p.perform c).2.Mirrors := by
  by_cases hregister : ∃ kind task, c = .register kind task
  · obtain ⟨kind, task, rfl⟩ := hregister
    rw [Patch.perform]
    rcases register_cases h hm kind task with ⟨-, hrefused⟩ | ⟨-, handle, new, hok, hroll⟩
    · rw [hrefused]
      exact hm
    · rw [hok]
      have hlists := Roll.own_enter (r := p.roll) hm kind task
      rw [← hroll] at hlists
      exact hlists
  · by_cases hunregister : ∃ kind handle, c = .unregister kind handle
    · obtain ⟨kind, handle, rfl⟩ := hunregister
      rw [Patch.perform]
      rcases p.unregister_cases kind handle with ⟨r, hrefused⟩ | ⟨new, hok, hroll⟩
      · rw [hrefused]
        exact hm
      · rw [hok]
        have hlists := Roll.own_leave (r := p.roll) hm kind handle.task
        rw [← hroll] at hlists
        exact hlists
    · refine hm.of_roll (h.roll_perform ho ?_ ?_)
      · exact fun kind task hc => hregister ⟨kind, task, hc⟩
      · exact fun kind handle hc => hunregister ⟨kind, handle, hc⟩

/-- What a run of calls has made of a patch stands at rest or in a step. -/
theorem Reached.stands (hp : p.Reached) : ∃ phase, p.Stands phase := by
  obtain ⟨id, serial, averaged, calls, rfl⟩ := hp
  obtain ⟨phase, -, hstands, -⟩ := told_of_stands (stands_new id serial averaged) rfl calls
  exact ⟨phase, hstands⟩

theorem Reached.orderly (hp : p.Reached) : p.Orderly := by
  obtain ⟨id, serial, averaged, calls, rfl⟩ := hp
  exact orderly_after (stands_new id serial averaged) rfl (orderly_new id serial averaged) calls

theorem Reached.perform (hp : p.Reached) (c : Call) : (p.perform c).2.Reached := by
  obtain ⟨id, serial, averaged, calls, rfl⟩ := hp
  exact ⟨id, serial, averaged, calls ++ [c], (after_concat _ calls c).symm⟩

/-- **A patch lists for each box what the box lists**, after any run of calls. -/
theorem Reached.mirrors (hp : p.Reached) : p.Mirrors := by
  obtain ⟨id, serial, averaged, calls, rfl⟩ := hp
  induction calls using List.reverseRecOn with
  | nil => exact mirrors_new id serial averaged
  | append_singleton calls c ih =>
    have hbefore : ((new id serial averaged).after calls).Reached :=
      ⟨id, serial, averaged, calls, rfl⟩
    obtain ⟨phase, hstands⟩ := hbefore.stands
    rw [after_concat]
    exact ih.perform hstands hbefore.orderly c

end Patch

end PatchDynamics
