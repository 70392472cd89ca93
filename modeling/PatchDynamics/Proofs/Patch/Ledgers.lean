import PatchDynamics.Proofs.Box.Custody
import PatchDynamics.Proofs.Box.Erasure
import PatchDynamics.Proofs.Patch.Rosters

/-!
# The ledger of a patch

The books of the three boxes of a patch change by registrations and their ends only, and these look
at nothing but the books:

* `Patch.ledger` — the three books, `Patch.Call.request?` — what a call asks of them;
* `Patch.register_cases_ledger`, `Patch.unregister_cases_ledger` — what the two calls make of them;
* `Patch.Reached.ledger_after`, `Patch.Reached.verdicts_eq` — a run of calls is a run of requests.
-/

namespace PatchDynamics

namespace Box

variable {P D : Type} {b : Box P D} {task : ComputeId}

/-- What the box knows of its handles. -/
def book (b : Box P D) : Book := ⟨b.serial, b.nextToken, b.handles⟩

@[simp] theorem tasks_book (b : Box P D) : b.book.tasks = b.tasks := map_task_handles b

theorem book_shut (b : Box P D) : b.shut.book = b.book := by
  have hhandles : b.shut.handles = b.handles := by
    rw [handles, handles, shut, List.map_map]
    rfl
  rw [book, hhandles]
  rfl

theorem book_of_deals {b' : Box P D} (h : Deals b none none b') : b'.book = b.book := by
  cases h with
  | leaves hmint hhandles =>
    obtain ⟨hserial, hnext⟩ := Prod.mk.inj hmint
    rw [book, book, hserial, hnext, hhandles]

theorem book_retrieve (nodup : b.tasks.Nodup) (h : Handle) : (b.retrieve h).box.book = b.book :=
  book_of_deals (deals_act nodup (.call (.retrieve h)))

theorem book_deposit (nodup : b.tasks.Nodup) (check : ComputeId → P → D → Except Refusal Unit)
    (h : Handle) (value : D) : (b.deposit check h value).box.book = b.book :=
  book_of_deals (deals_act nodup (.call (.deposit check h value)))

/-- **A registration** is made as the book says. -/
theorem register_book (b : Box P D) (task : ComputeId) :
    (∃ r, b.register task = b.refuse r ∧ (b.book.ask (.register task)).1 = .refused) ∨
      ∃ handle box, b.register task = ⟨.ok handle, none, box⟩ ∧
        b.book.ask (.register task) = (.issued handle, box.book) := by
  rw [Book.ask, tasks_book]
  by_cases hmem : task ∈ b.tasks
  · rw [if_pos hmem]
    exact .inl ⟨_, register_of_mem hmem, rfl⟩
  · rw [if_neg hmem, register, if_neg hmem]
    refine .inr ⟨_, _, rfl, congrArg (Prod.mk _) ?_⟩
    rw [book, book, Book.entered, handles, handles, List.map_append]
    rfl

/-- **The end of a registration** is made as the book says. -/
theorem unregister_book (nodup : b.tasks.Nodup) (h : Handle) :
    (∃ r, b.unregister h = b.refuse r ∧ (b.book.ask (.unregister h)).1 = .refused) ∨
      ∃ box, b.unregister h = ⟨.ok (), none, box⟩ ∧
        b.book.ask (.unregister h) = (.returned, box.book) := by
  rw [Book.ask]
  cases live : b.live? h with
  | none =>
    rw [if_neg (show h ∉ b.book.handles from (live_eq_none_iff nodup).mp live)]
    exact .inl ⟨_, unregister_of_unknown live, rfl⟩
  | some r =>
    rw [if_pos (show h ∈ b.book.handles from mem_handles_of_live live)]
    have hhandles := handles_unregister nodup live
    rw [unregister, live] at hhandles ⊢
    exact .inr ⟨_, rfl,
      congrArg (Prod.mk _) (congrArg (Book.mk b.serial b.nextToken) hhandles.symm)⟩

end Box

namespace Patch

variable {p q : Patch} {phase : Phase} {kind : BoxKind} {task : ComputeId}

/-- What the boxes know of their handles. -/
def book (p : Patch) : BoxKind → Book
  | .position => p.positionBox.book
  | .avgPosition => p.averageBox.book
  | .force => p.forceBox.book

/-- The books of the patch. -/
def ledger (p : Patch) : Ledger BoxKind := fun kind => some (p.book kind)

@[simp] theorem tasks_book (p : Patch) (kind : BoxKind) :
    (p.book kind).tasks = p.boxTasks kind := by
  cases kind <;> exact Box.tasks_book _

theorem ledger_congr (hposition : q.positionBox.book = p.positionBox.book)
    (haverage : q.averageBox.book = p.averageBox.book)
    (hforce : q.forceBox.book = p.forceBox.book) : q.ledger = p.ledger := by
  funext kind
  refine congrArg some ?_
  cases kind
  · exact hposition
  · exact haverage
  · exact hforce

/-! ## Calls without requests -/

/-- What a call asks of the books. -/
def Call.request? : Call → Option (BoxKind × Request)
  | .register kind task => some (kind, .register task)
  | .unregister kind h => some (kind, .unregister h)
  | _ => none

theorem Edited.ledger (h : p.Edited q) : q.ledger = p.ledger := by
  obtain ⟨_, _, _, _, rfl⟩ := h
  rfl

/-- A patch that begins its step keeps its books. -/
theorem ledger_begun (p : Patch) (tag : UInt32) : (p.begun tag).ledger = p.ledger := by
  refine ledger_congr rfl ?_ rfl
  change (if p.averaged then p.averageBox.start p.averages else p.averageBox).book = _
  split <;> rfl

/-- A patch whose step ends keeps its books, if its box of forces does. -/
theorem ledger_ended (p : Patch) {forces : Box ForceFrame ForceDeposit}
    (hforces : forces.book = p.forceBox.book) (deposits : List ForceDeposit) :
    (p.ended forces deposits).ledger = p.ledger :=
  ledger_congr rfl rfl hforces

theorem Stands.ledger_positionsReady (h : p.Stands phase) (tag : UInt32) :
    (p.positionsReady tag).patch.ledger = p.ledger := by
  cases phase with
  | closed => exact absurd rfl h.resting
  | opened =>
    rw [positionsReady_of_busy h]
    rfl
  | idle =>
    by_cases hnone : p.forceBox.expected = 0
    · rw [positionsReady_of_unattended h tag hnone]
      refine (ledger_ended (p.begun tag) ?_ []).trans (p.ledger_begun tag)
      exact Box.book_shut (p.forceBox.start ⟨p.id, p.step + 1, p.size⟩)
    · rw [positionsReady_of_attended h tag hnone]
      exact p.ledger_begun tag

theorem Stands.ledger_deposit (h : p.Stands phase) (ho : p.Orderly) (handle : Handle)
    (d : ForceDeposit) : (p.deposit handle d).patch.ledger = p.ledger := by
  have hbook := Box.book_deposit ho.forces.nodup (fitsFrame p.id) handle d
  rcases p.forceBox.deposit_standing (fitsFrame p.id) handle d with
    ⟨hc, -⟩ | ⟨c, hc, -, -, hphase, -⟩
  · rw [Patch.deposit, afterForces_of_none hc]
    exact ledger_congr rfl rfl hbook
  · obtain rfl : phase = .opened := h.force_phase.symm.trans hphase
    rw [Patch.deposit, afterForces_of_completion h.reading hc]
    exact p.ledger_ended hbook _

theorem Orderly.ledger_retrieve (ho : p.Orderly) (kind : BoxKind) (handle : Handle) :
    (p.perform (.retrieve kind handle)).2.ledger = p.ledger := by
  cases kind with
  | position => exact ledger_congr (Box.book_retrieve ho.positions.nodup handle) rfl rfl
  | avgPosition => exact ledger_congr rfl (Box.book_retrieve ho.averages.nodup handle) rfl
  | force =>
    rw [Patch.perform, retrieveFrame, afterForces_of_none (p.forceBox.completion_retrieve handle)]
    exact ledger_congr rfl rfl (Box.book_retrieve ho.forces.nodup handle)

/-- **A call that asks nothing of the books keeps them.** -/
theorem Stands.ledger_perform (h : p.Stands phase) (ho : p.Orderly) {c : Call}
    (hnone : c.request? = none) : (p.perform c).2.ledger = p.ledger := by
  cases c with
  | register kind task => cases hnone
  | unregister kind handle => cases hnone
  | positionsReady tag => exact h.ledger_positionsReady tag
  | retrieve kind handle => exact ho.ledger_retrieve kind handle
  | deposit handle d => exact h.ledger_deposit ho handle d
  | depositIntoPositions handle =>
    obtain ⟨r, hr⟩ := Box.deposit_of_read h.position_mode Box.acceptAll handle ()
    rw [Patch.perform, depositIntoPositions, hr]
    rfl
  | depositIntoAverages handle =>
    obtain ⟨r, hr⟩ := Box.deposit_of_read h.average_mode Box.acceptAll handle ()
    rw [Patch.perform, depositIntoAverages, hr]
    rfl
  | replaceAtoms directory atoms => exact (edited_replaceAtoms directory p atoms).ledger
  | editAtoms f => exact (p.edited_editAtoms f).2.ledger
  | setAverages averages => exact (p.edited_setAverages averages).2.ledger
  | setFixedAtoms count => exact (p.edited_setFixedAtoms count).ledger

/-! ## Requests -/

/-- Only one book changes. -/
theorem ledger_of_update {request : Request} {v : Verdict} {book : Book}
    (hask : (p.book kind).ask request = (v, book)) (hbook : q.book kind = book)
    (hothers : ∀ other, other ≠ kind → q.book other = p.book other) :
    p.ledger.verdict kind request = v ∧ q.ledger = p.ledger.next kind request := by
  have hv : p.ledger.verdict kind request = v := by
    rw [Ledger.verdict_of_some (l := p.ledger) (b := p.book kind) rfl, hask]
  refine ⟨hv, funext fun other => ?_⟩
  by_cases hsame : other = kind
  · rw [hsame, Ledger.next_self, ledger, ledger, Option.map_some, hask, hbook]
  · rw [Ledger.next_of_ne _ _ hsame, ledger, ledger, hothers other hsame]

/-- **A registration** is made as the book says. -/
theorem register_cases_ledger (p : Patch) (kind : BoxKind) (task : ComputeId) :
    (∃ r, p.register kind task = p.refuse r ∧
        p.ledger.verdict kind (.register task) = .refused) ∨
      ∃ handle new, p.register kind task = ⟨.ok handle, [], new⟩ ∧
        p.ledger.verdict kind (.register task) = .issued handle ∧
        new.ledger = p.ledger.next kind (.register task) := by
  cases kind with
  | position =>
    rcases p.positionBox.register_book task with ⟨r, hr, hask⟩ | ⟨handle, box, hbox, hask⟩
    · exact .inl ⟨r, by rw [register, hr]; rfl, hask⟩
    · have hreply : p.register .position task = ⟨.ok handle, [], { p with
          positionBox := box, readers := (p.readers.insert task).2 }⟩ := by
        rw [register, hbox]
      refine .inr ⟨handle, _, hreply, ledger_of_update hask rfl ?_⟩
      rintro (_ | _ | _) hother <;> first | exact absurd rfl hother | rfl
  | avgPosition =>
    rcases p.averageBox.register_book task with ⟨r, hr, hask⟩ | ⟨handle, box, hbox, hask⟩
    · exact .inl ⟨r, by rw [register, hr]; rfl, hask⟩
    · have hreply : p.register .avgPosition task = ⟨.ok handle, [], { p with
          averageBox := box, averageReaders := (p.averageReaders.insert task).2 }⟩ := by
        rw [register, hbox]
      refine .inr ⟨handle, _, hreply, ledger_of_update hask rfl ?_⟩
      rintro (_ | _ | _) hother <;> first | exact absurd rfl hother | rfl
  | force =>
    rcases p.forceBox.register_book task with ⟨r, hr, hask⟩ | ⟨handle, box, hbox, hask⟩
    · exact .inl ⟨r, by rw [register, hr]; rfl, hask⟩
    · have hreply : p.register .force task = ⟨.ok handle, [], { p with
          forceBox := box, contributors := (p.contributors.insert task).2 }⟩ := by
        rw [register, hbox]
      refine .inr ⟨handle, _, hreply, ledger_of_update hask rfl ?_⟩
      rintro (_ | _ | _) hother <;> first | exact absurd rfl hother | rfl

/-- **The end of a registration** is made as the book says. -/
theorem Orderly.unregister_cases_ledger (ho : p.Orderly) (kind : BoxKind) (handle : Handle) :
    (∃ r, p.unregister kind handle = p.refuse r ∧
        p.ledger.verdict kind (.unregister handle) = .refused) ∨
      ∃ new, p.unregister kind handle = ⟨.ok (), [], new⟩ ∧
        p.ledger.verdict kind (.unregister handle) = .returned ∧
        new.ledger = p.ledger.next kind (.unregister handle) := by
  cases kind with
  | position =>
    rcases Box.unregister_book ho.positions.nodup handle with ⟨r, hr, hask⟩ | ⟨box, hbox, hask⟩
    · exact .inl ⟨r, by rw [unregister, hr]; rfl, hask⟩
    · have hreply : p.unregister .position handle = ⟨.ok (), [], { p with
          positionBox := box, readers := (p.readers.remove handle.task).2 }⟩ := by
        rw [unregister, hbox]
      refine .inr ⟨_, hreply, ledger_of_update hask rfl ?_⟩
      rintro (_ | _ | _) hother <;> first | exact absurd rfl hother | rfl
  | avgPosition =>
    rcases Box.unregister_book ho.averages.nodup handle with ⟨r, hr, hask⟩ | ⟨box, hbox, hask⟩
    · exact .inl ⟨r, by rw [unregister, hr]; rfl, hask⟩
    · have hreply : p.unregister .avgPosition handle = ⟨.ok (), [], { p with
          averageBox := box, averageReaders := (p.averageReaders.remove handle.task).2 }⟩ := by
        rw [unregister, hbox]
      refine .inr ⟨_, hreply, ledger_of_update hask rfl ?_⟩
      rintro (_ | _ | _) hother <;> first | exact absurd rfl hother | rfl
  | force =>
    rcases Box.unregister_book ho.forces.nodup handle with ⟨r, hr, hask⟩ | ⟨box, hbox, hask⟩
    · exact .inl ⟨r, by rw [unregister, hr]; rfl, hask⟩
    · have hreply : p.unregister .force handle = ⟨.ok (), [], { p with
          forceBox := box, contributors := (p.contributors.remove handle.task).2 }⟩ := by
        rw [unregister, hbox]
      refine .inr ⟨_, hreply, ledger_of_update hask rfl ?_⟩
      rintro (_ | _ | _) hother <;> first | exact absurd rfl hother | rfl

/-- What the patch says to a call that asks something of the books. -/
def verdict? (p : Patch) : Call → Option Verdict
  | .register kind task =>
    some (match (p.register kind task).outcome with
      | .ok handle => .issued handle
      | .error _ => .refused)
  | .unregister kind h =>
    some (match (p.unregister kind h).outcome with
      | .ok () => .returned
      | .error _ => .refused)
  | _ => none

/-- **One call** makes of the books what it asks of them. -/
theorem Orderly.request_perform (ho : p.Orderly) {c : Call} {kind : BoxKind} {request : Request}
    (hrequest : c.request? = some (kind, request)) :
    p.verdict? c = some (p.ledger.verdict kind request) ∧
      (p.perform c).2.ledger = p.ledger.next kind request := by
  cases c with
  | register kind task =>
    cases hrequest
    rw [verdict?, Patch.perform]
    rcases p.register_cases_ledger kind task with ⟨r, hr, hv⟩ | ⟨handle, new, hok, hv, hnext⟩
    · rw [hr, hv, Ledger.next_of_refused hv]
      exact ⟨rfl, rfl⟩
    · rw [hok, hv]
      exact ⟨rfl, hnext⟩
  | unregister kind handle =>
    cases hrequest
    rw [verdict?, Patch.perform]
    rcases ho.unregister_cases_ledger kind handle with ⟨r, hr, hv⟩ | ⟨new, hok, hv, hnext⟩
    · rw [hr, hv, Ledger.next_of_refused hv]
      exact ⟨rfl, rfl⟩
    · rw [hok, hv]
      exact ⟨rfl, hnext⟩
  | _ => cases hrequest

/-! ## Runs -/

theorem Reached.after (hp : p.Reached) (calls : List Call) : (p.after calls).Reached := by
  obtain ⟨id, serial, averaged, before, rfl⟩ := hp
  exact ⟨id, serial, averaged, before ++ calls, (after_append _ before calls).symm⟩

/-- What some calls ask of the books. -/
def requests (calls : List Call) : List (BoxKind × Request) := calls.filterMap Call.request?

/-- What the patch says to those calls of a run that ask something of the books, in order. -/
def verdicts (p : Patch) (calls : List Call) : List Verdict :=
  (trace (fun p c => (p.perform c).2) verdict? p calls).reduceOption

theorem verdict?_of_none {c : Call} (hnone : c.request? = none) : p.verdict? c = none := by
  cases c with
  | register kind task => cases hnone
  | unregister kind handle => cases hnone
  | _ => rfl

/-- **A run of calls is a run of requests.** -/
theorem Reached.ledger_after (hp : p.Reached) (calls : List Call) :
    (p.after calls).ledger = p.ledger.after (requests calls) ∧
      p.verdicts calls = p.ledger.verdicts (requests calls) := by
  have hkeeps : ∀ (p : Patch) (c : Call), p.Reached → (p.perform c).2.Reached :=
    fun _ c hp => hp.perform c
  refine Ledger.run_eq hkeeps (fun p c hp hnone => ?_)
    (fun p c q hp hsome => hp.orderly.request_perform hsome) hp calls
  obtain ⟨phase, hstands⟩ := hp.stands
  exact ⟨hstands.ledger_perform hp.orderly hnone, verdict?_of_none hnone⟩

/-- The books of a new patch are sound, and its boxes have different numbers. -/
theorem sound_new (id : PatchId) (serial : Nat) (averaged : Bool) :
    (new id serial averaged).ledger.Sound := by
  refine ⟨fun kind b hb => ?_, fun i j n hi hj => ?_⟩
  · obtain rfl := Option.some.inj hb
    cases kind <;> exact ⟨nofun, nofun, nofun, Nat.one_pos⟩
  · have hserials : ∀ kind, (new id serial averaged).ledger.serials kind =
        some (match kind with
          | .position => serial
          | .avgPosition => serial + 1
          | .force => serial + 2) := by
      intro kind
      cases kind <;> rfl
    rw [hserials] at hi hj
    rw [← hj, Option.some_inj] at hi
    cases i <;> cases j <;> first | rfl | (dsimp only at hi; omega)

/-- **The books of a patch are sound**, after any run of calls. -/
theorem Reached.sound (hp : p.Reached) : p.ledger.Sound := by
  obtain ⟨id, serial, averaged, calls, rfl⟩ := hp
  have hnew : (new id serial averaged).Reached := ⟨id, serial, averaged, [], rfl⟩
  rw [(hnew.ledger_after calls).1]
  exact (sound_new id serial averaged).after _

/-! ## A registration that is given back -/

/-- The call with the handles that take the places of its own where some were never issued. -/
def Call.renumbered (gone : List Handle) : Call → Call
  | .unregister kind h => .unregister kind (h.renumbered gone)
  | .retrieve kind h => .retrieve kind (h.renumbered gone)
  | .deposit h d => .deposit (h.renumbered gone) d
  | .depositIntoPositions h => .depositIntoPositions (h.renumbered gone)
  | .depositIntoAverages h => .depositIntoAverages (h.renumbered gone)
  | c => c

theorem requests_renumbered (gone : List Handle) (calls : List Call) :
    requests (calls.map (Call.renumbered gone)) =
      (requests calls).map fun q => (q.1, q.2.map (Handle.renumbered gone)) := by
  rw [requests, requests, List.filterMap_map, List.map_filterMap]
  refine List.filterMap_congr fun c _ => ?_
  cases c <;> rfl

theorem boxTasks_of_ledger (h : (p.ledger kind).map Book.tasks = (q.ledger kind).map Book.tasks) :
    p.boxTasks kind = q.boxTasks kind := by
  rw [← tasks_book, ← tasks_book]
  exact Option.some.inj h

/-- **A registration that is given back leaves no trace**, if others did not register the compute
with the box again in the meantime, nor give its handle back: the handle is taken back, the others
were answered as if the compute had never come, and the same computes are registered with each
box. -/
theorem Reached.resigned (hp : p.Reached) {h : Handle}
    (hok : (p.register kind task).outcome = .ok h) {between : List Call}
    (hregister : .register kind task ∉ between) (hunregister : .unregister kind h ∉ between) :
    let met := (p.perform (.register kind task)).2
    let unmet := p.after (between.map (Call.renumbered [h]))
    p.verdicts (between.map (Call.renumbered [h])) =
        (met.verdicts between).map (Verdict.map (Handle.renumbered [h])) ∧
      ((met.after between).unregister kind h).outcome = .ok () ∧
      ((met.after between).unregister kind h).patch.boxTasks = unmet.boxTasks := by
  intro met unmet
  have hmet : met.Reached := hp.perform _
  obtain ⟨hafter, hverdicts⟩ := hmet.ledger_after between
  obtain ⟨hafter', hverdicts'⟩ := hp.ledger_after (between.map (Call.renumbered [h]))
  have hissued : p.ledger.verdict kind (.register task) = .issued h ∧
      met.ledger = p.ledger.next kind (.register task) := by
    obtain ⟨hv, hnext⟩ := hp.orderly.request_perform (c := .register kind task) rfl
    rw [verdict?, hok] at hv
    exact ⟨(Option.some.inj hv).symm, hnext⟩
  have henrols : Ledger.Enrols task [(kind, h)] p.ledger met.ledger := by
    rw [hissued.2]
    exact .cons hissued.1 (.nil _)
  have hnot : ∀ q : BoxKind × Request, q ∈ requests between → ∃ c ∈ between, c.request? = some q :=
    fun q hq => List.mem_filterMap.mp hq
  obtain ⟨hsame, l₃, hresigns, htasks⟩ := Ledger.resigned hp.sound henrols
    (requests between)
    (by
      rw [List.forall_mem_singleton]
      intro hq
      obtain ⟨c, hc, hrequest⟩ := hnot _ hq
      cases c <;> cases hrequest
      exact hregister hc)
    (by
      rw [List.forall_mem_singleton]
      intro hq
      obtain ⟨c, hc, hrequest⟩ := hnot _ hq
      cases c <;> cases hrequest
      exact hunregister hc)
  rw [hverdicts', requests_renumbered, hverdicts]
  refine ⟨hsame, ?_⟩
  -- the handle is given back
  cases hresigns with
  | cons first rest =>
  cases rest
  rw [← hafter] at first htasks
  rcases (hmet.after between).orderly.unregister_cases_ledger kind h with
    ⟨r, -, hv⟩ | ⟨new, hreply, -, hnext⟩
  · cases hv.symm.trans first
  · rw [hreply]
    refine ⟨rfl, funext fun other => boxTasks_of_ledger ?_⟩
    rw [hnext, htasks other, hafter', requests_renumbered]
    rfl

end Patch

end PatchDynamics
