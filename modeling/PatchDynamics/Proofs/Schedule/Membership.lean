import PatchDynamics.Proofs.Assembly.Ledgers

/-!
# Who is registered

The computes that a patch lists for a box are told by the calls that succeeded, and a compute that
has left again has left no trace, be it alone with one box or with all patches of a task:

* `Mark`, `standing` — the registrations and ends of a run, and the computes that they leave;
* `Patch.lists_after` — both lists of a patch for each box are those computes;
* `ForceTask.enrols`, `ForceTask.unregister_of_resigns` — what registering a task and giving its
  handles back asks of the books.

The main statement is `membership_exact`.
-/

namespace PatchDynamics

/-! ## What a run leaves -/

/-- A call that changed a list. -/
inductive Mark where
  /-- a compute was registered with a box -/
  | entered (kind : BoxKind) (task : ComputeId)
  /-- a registration ended -/
  | left (kind : BoxKind) (task : ComputeId)
  deriving DecidableEq

/-- The computes whose registrations with a box have not ended later, in the order of these
registrations. -/
def standing (kind : BoxKind) : List Mark → List ComputeId
  | [] => []
  | .entered k task :: later =>
    if k = kind ∧ .left kind task ∉ later then task :: standing kind later
    else standing kind later
  | .left _ _ :: later => standing kind later

theorem standing_entered (kind k : BoxKind) (task : ComputeId) (marks : List Mark) :
    standing kind (marks ++ [.entered k task]) =
      if k = kind then standing kind marks ++ [task] else standing kind marks := by
  induction marks with
  | nil => by_cases hsame : k = kind <;> simp [standing, hsame]
  | cons m marks ih =>
    cases m with
    | left k' task' => exact ih
    | entered k' task' =>
      have hlast : Mark.left kind task' ∉ marks ++ [.entered k task] ↔
          Mark.left kind task' ∉ marks := by simp
      rw [List.cons_append, standing, standing, ih]
      simp only [hlast]
      split <;> split <;> rfl

theorem standing_left (kind k : BoxKind) (task : ComputeId) (marks : List Mark) :
    standing kind (marks ++ [.left k task]) =
      if k = kind then (standing kind marks).filter (· ≠ task) else standing kind marks := by
  induction marks with
  | nil => by_cases hsame : k = kind <;> simp [standing, hsame]
  | cons m marks ih =>
    cases m with
    | left k' task' => exact ih
    | entered k' task' =>
      rw [List.cons_append, standing, standing, ih]
      by_cases hk : k = kind
      · -- the registrations that end now are those of the same compute
        subst hk
        by_cases htask : task' = task
        · subst htask
          simp only [List.mem_append, List.mem_singleton, or_true, not_true_eq_false, and_false,
            if_false, if_pos]
          split <;> simp
        · have hne : Mark.left k task' ≠ .left k task := by simpa using htask
          simp only [List.mem_append, List.mem_singleton, hne, or_false, if_pos]
          split <;> simp [htask]
      · have hne : ∀ t, Mark.left kind t ≠ .left k task := fun t heq => by
          cases heq
          exact hk rfl
        simp only [List.mem_append, List.mem_singleton, hne, or_false, if_neg hk]

namespace Patch

variable {p : Patch}

/-- What a call changes in the lists. -/
def mark? (p : Patch) : Call → Option Mark
  | .register kind task =>
    match (p.register kind task).outcome with
    | .ok _ => some (.entered kind task)
    | .error _ => none
  | .unregister kind h =>
    match (p.unregister kind h).outcome with
    | .ok () => some (.left kind h.task)
    | .error _ => none
  | _ => none

/-- The registrations and the ends of registrations that were not refused, in order. -/
def marks (p : Patch) (calls : List Call) : List Mark :=
  (trace (fun p c => (p.perform c).2) mark? p calls).reduceOption

theorem marks_concat (p : Patch) (calls : List Call) (c : Call) :
    p.marks (calls ++ [c]) = p.marks calls ++ ((p.after calls).mark? c).toList := by
  rw [marks, trace_append, List.reduceOption_append, ← marks]
  refine congrArg (p.marks calls ++ ·) ?_
  change [(p.after calls).mark? c].reduceOption = _
  cases (p.after calls).mark? c <;> rfl

/-- **The computes that a patch lists for a box** are those whose registrations have not ended. -/
theorem lists_after (id : PatchId) (serial : Nat) (averaged : Bool) (calls : List Call)
    (kind : BoxKind) :
    ((new id serial averaged).after calls).boxTasks kind =
      standing kind ((new id serial averaged).marks calls) := by
  induction calls using List.reverseRecOn with
  | nil => cases kind <;> rfl
  | append_singleton calls c ih =>
    have hreached : ((new id serial averaged).after calls).Reached :=
      ⟨id, serial, averaged, calls, rfl⟩
    obtain ⟨phase, hstands⟩ := hreached.stands
    rw [after_concat, marks_concat]
    generalize (new id serial averaged).after calls = p at ih hreached hstands
    have hquiet : p.mark? c = none → (p.perform c).2.roll = p.roll →
        (p.perform c).2.boxTasks kind =
          standing kind ((new id serial averaged).marks calls ++ (p.mark? c).toList) := by
      intro hnone hroll
      rw [hnone, Option.toList_none, List.append_nil, ← ih]
      exact congrFun (congrArg Roll.boxes hroll) kind
    by_cases hregister : ∃ k task, c = .register k task
    · obtain ⟨k, task, rfl⟩ := hregister
      rcases register_cases hstands hreached.mirrors k task with
        ⟨-, hrefused⟩ | ⟨-, handle, new, hok, hroll⟩
      · refine hquiet ?_ ?_
        · rw [mark?, hrefused]
          rfl
        · rw [Patch.perform, hrefused]
          rfl
      · have hmark : p.mark? (.register k task) = some (.entered k task) := by rw [mark?, hok]
        have hboxes : new.boxTasks = Function.update p.boxTasks k (p.boxTasks k ++ [task]) :=
          congrArg Roll.boxes hroll
        rw [hmark, Patch.perform, hok, Option.toList_some, standing_entered, ← ih]
        change new.boxTasks kind = _
        rw [hboxes]
        by_cases hsame : k = kind
        · rw [if_pos hsame, hsame, Function.update_self]
        · rw [if_neg hsame, Function.update_of_ne (Ne.symm hsame)]
    · by_cases hunregister : ∃ k handle, c = .unregister k handle
      · obtain ⟨k, handle, rfl⟩ := hunregister
        rcases p.unregister_cases k handle with ⟨r, hrefused⟩ | ⟨new, hok, hroll⟩
        · refine hquiet ?_ ?_
          · rw [mark?, hrefused]
            rfl
          · rw [Patch.perform, hrefused]
            rfl
        · have hmark : p.mark? (.unregister k handle) = some (.left k handle.task) := by
            rw [mark?, hok]
          have hboxes : new.boxTasks =
              Function.update p.boxTasks k ((p.boxTasks k).filter (· ≠ handle.task)) :=
            congrArg Roll.boxes hroll
          rw [hmark, Patch.perform, hok, Option.toList_some, standing_left, ← ih]
          change new.boxTasks kind = _
          rw [hboxes]
          by_cases hsame : k = kind
          · rw [if_pos hsame, hsame, Function.update_self]
          · rw [if_neg hsame, Function.update_of_ne (Ne.symm hsame)]
      · refine hquiet ?_ (hstands.roll_perform hreached.orderly ?_ ?_)
        · cases c with
          | register k task => exact absurd ⟨k, task, rfl⟩ hregister
          | unregister k handle => exact absurd ⟨k, handle, rfl⟩ hunregister
          | _ => rfl
        · exact fun k task hc => hregister ⟨k, task, hc⟩
        · exact fun k handle hc => hunregister ⟨k, handle, hc⟩

end Patch

/-! ## Registering tasks -/

namespace ForceTask

open Assembly

variable {s s' : Assembly} {t : Task} {task : ForceTask}

/-- What an endpoint holds, in the order in which it is asked for and given back. -/
def heldAt (e : Endpoint) : List (Place × Handle) :=
  [(⟨e.patch, .position⟩, e.positions), (⟨e.patch, .force⟩, e.forces)]

/-- The handles of a task. -/
def handles (t : ForceTask) : List Handle := (t.endpoints.flatMap heldAt).map Prod.snd

theorem enrols_endpoint (hs : s.Reached) {id : ComputeId} {patch : PatchId} {e : Endpoint}
    (h : registerEndpoint id patch s = (.ok e, s')) :
    Ledger.Enrols id (heldAt e) s.ledger s'.ledger ∧ s'.Reached := by
  obtain ⟨positions, s₁, hfirst, h⟩ := ok_of_bind h
  obtain ⟨forces, s₂, hsecond, h⟩ := ok_of_bind h
  cases h
  obtain ⟨hv₁, hledger₁, hs₁⟩ := hs.register_ok hfirst
  obtain ⟨hv₂, hledger₂, hs₂⟩ := hs₁.register_ok hsecond
  rw [hledger₁] at hv₂ hledger₂
  rw [hledger₂]
  exact ⟨.cons hv₁ (.cons hv₂ (.nil _)), hs₂⟩

theorem enrols_endpoints (hs : s.Reached) {id : ComputeId} {patches : List PatchId}
    {endpoints : List Endpoint}
    (h : patches.mapM (registerEndpoint id) s = (.ok endpoints, s')) :
    Ledger.Enrols id (endpoints.flatMap heldAt) s.ledger s'.ledger ∧ s'.Reached := by
  induction patches generalizing s endpoints with
  | nil =>
    cases h
    exact ⟨.nil _, hs⟩
  | cons patch patches ih =>
    rw [List.mapM_cons] at h
    obtain ⟨e, s₁, hfirst, h⟩ := ok_of_bind h
    obtain ⟨rest, s₂, hrest, h⟩ := ok_of_bind h
    cases h
    obtain ⟨henrols, hs₁⟩ := enrols_endpoint hs hfirst
    obtain ⟨hothers, hs₂⟩ := ih hs₁ hrest
    exact ⟨henrols.append hothers, hs₂⟩

/-- **A task that is registered** has asked the books for all its handles. -/
theorem enrols (hs : s.Reached) (h : register t s = (.ok task, s')) :
    task.id = t.id ∧ Ledger.Enrols t.id (task.endpoints.flatMap heldAt) s.ledger s'.ledger ∧
      s'.Reached := by
  obtain ⟨endpoints, s₁, hendpoints, h⟩ := ok_of_bind h
  cases h
  exact ⟨rfl, enrols_endpoints hs hendpoints⟩

/-- **A task whose handles the books take back** can give them back. -/
theorem unregister_of_resigns {endpoints : List Endpoint} {l' : Ledger Place} (hs : s.Reached)
    (h : Ledger.Resigns (endpoints.flatMap heldAt) s.ledger l') :
    ∃ s', endpoints.forM unregisterEndpoint s = (.ok (), s') ∧ s'.ledger = l' ∧ s'.Reached := by
  induction endpoints generalizing s with
  | nil =>
    cases h
    exact ⟨s, rfl, rfl, hs⟩
  | cons e endpoints ih =>
    obtain ⟨l₂, hfirst, hrest⟩ := Ledger.Resigns.of_append h
    cases hfirst with
    | cons hposition hfirst =>
    cases hfirst with
    | cons hforce hfirst =>
    cases hfirst
    obtain ⟨s₁, hcall₁, hledger₁, hs₁⟩ := hs.unregister_ok (.unknownPatch e.patch) hposition
    rw [← hledger₁] at hforce hrest
    obtain ⟨s₂, hcall₂, hledger₂, hs₂⟩ := hs₁.unregister_ok (.unknownPatch e.patch) hforce
    rw [← hledger₂] at hrest
    obtain ⟨s', hcalls, hledger', hs'⟩ := ih hs₂ hrest
    have hendpoint : unregisterEndpoint e s = (.ok (), s₂) :=
      (bind_of_ok hcall₁ _).trans hcall₂
    exact ⟨s', (bind_of_ok hendpoint _).trans hcalls, hledger', hs'⟩

end ForceTask

/-! ## All of it -/

/-- **Who is registered.** Take a patch after any run of calls, with any handles, refused or not.
For each of its boxes the patch lists the same computes as the box, in the same order: those that
were registered and have not left since, in the order of their registrations.

Let a compute register with a box, and let any calls follow that neither register it there again nor
give its handle back. Then its handle is taken back, and both lists for all boxes are what they
would be had the compute never registered. The calls in between are compared with those that others
would then have made: they would have got handles with earlier tokens, as a box counts its
registrations.

The same holds of a task that is registered with the positions and the forces of all its patches:
let any calls on the patches follow that neither register the compute with one of these boxes again
nor give one of its handles back. Then the task can give all of them back, and both lists for all
boxes of all patches are what they would be had the task never been registered. -/
theorem membership_exact :
    (∀ id serial averaged calls kind,
      let p := (Patch.new id serial averaged).after calls
      p.ownTasks kind = p.boxTasks kind ∧
      p.boxTasks kind = standing kind ((Patch.new id serial averaged).marks calls)) ∧
    (∀ id serial averaged calls between kind task h,
      let p := (Patch.new id serial averaged).after calls
      let met := (p.perform (.register kind task)).2
      let others := between.map (Patch.Call.renumbered [h])
      (p.register kind task).outcome = .ok h →
      .register kind task ∉ between → .unregister kind h ∉ between →
      p.verdicts others = (met.verdicts between).map (Verdict.map (Handle.renumbered [h])) ∧
      ((met.after between).unregister kind h).outcome = .ok () ∧
      ((met.after between).unregister kind h).patch.ownTasks = (p.after others).ownTasks ∧
      ((met.after between).unregister kind h).patch.boxTasks = (p.after others).boxTasks) ∧
    ∀ settings ids calls between t task met,
      let s := (Assembly.build settings ids).after calls
      let others := between.map (Assembly.Call.renumbered task.handles)
      ForceTask.register t s = (.ok task, met) →
      (∀ e ∈ task.endpoints, ∀ c ∈ ([.register .position t.id, .register .force t.id,
          .unregister .position e.positions, .unregister .force e.forces] : List Patch.Call),
        .onPatch e.patch c ∉ between) →
      s.verdicts others =
          (met.verdicts between).map (Verdict.map (Handle.renumbered task.handles)) ∧
      ∃ s', task.unregister (met.after between) = (.ok (), s') ∧ ∀ id,
        (s'.patch? id).map Patch.ownTasks = ((s.after others).patch? id).map Patch.ownTasks ∧
        (s'.patch? id).map Patch.boxTasks = ((s.after others).patch? id).map Patch.boxTasks := by
  refine ⟨?_, ?_, ?_⟩
  · intro id serial averaged calls kind
    have hreached : ((Patch.new id serial averaged).after calls).Reached :=
      ⟨id, serial, averaged, calls, rfl⟩
    exact ⟨congrFun hreached.mirrors kind, Patch.lists_after id serial averaged calls kind⟩
  · intro id serial averaged calls between kind task h p met others hok hregister hunregister
    have hp : p.Reached := ⟨id, serial, averaged, calls, rfl⟩
    obtain ⟨hverdicts, htaken, hboxes⟩ := hp.resigned hok hregister hunregister
    have hmirrors : ((met.after between).unregister kind h).patch.Mirrors :=
      (((hp.perform _).after between).perform (.unregister kind h)).mirrors
    exact ⟨hverdicts, htaken, (hmirrors.trans hboxes).trans (hp.after others).mirrors.symm, hboxes⟩
  · intro settings ids calls between t task met s others hok hforeign
    have hs : s.Reached := (Assembly.reached_build settings ids).after calls
    obtain ⟨-, henrols, hmet⟩ := ForceTask.enrols hs hok
    have hsound : s.ledger.Sound := by
      rw [((Assembly.reached_build settings ids).ledger_after calls).1]
      exact (Assembly.sound_build settings ids).after _
    -- a request at a place of the task is a call on one of its patches
    have hasked : ∀ q ∈ task.endpoints.flatMap ForceTask.heldAt, ∀ r : Request,
        (q.1, r) ∈ Assembly.requests between → ∃ e ∈ task.endpoints,
          (q = (⟨e.patch, .position⟩, e.positions) ∨ q = (⟨e.patch, .force⟩, e.forces)) ∧
          ∃ c : Patch.Call, .onPatch e.patch c ∈ between ∧ c.request? = some (q.1.kind, r) := by
      intro q hq r hr
      obtain ⟨e, he, hq⟩ := List.mem_flatMap.mp hq
      obtain ⟨c, hc, hrequest⟩ := List.mem_filterMap.mp hr
      have hplace : q.1.patch = e.patch := by
        rcases List.mem_pair.mp hq with rfl | rfl <;> rfl
      refine ⟨e, he, List.mem_pair.mp hq, ?_⟩
      cases c with
      | replaceAtoms patch atoms => cases hrequest
      | clear => cases hrequest
      | onPatch patch c =>
        obtain ⟨⟨kind, r'⟩, hc', heq⟩ := Option.map_eq_some_iff.mp hrequest
        obtain ⟨hat, rfl⟩ := Prod.mk.inj heq
        rw [← hat] at hplace ⊢
        obtain rfl : patch = e.patch := hplace
        exact ⟨c, hc, hc'⟩
    obtain ⟨hverdicts, l₃, hresigns, htasks⟩ := Ledger.resigned hsound henrols
      (Assembly.requests between)
      (by
        intro q hq hmem
        obtain ⟨e, he, hwhich, c, hc, hrequest⟩ := hasked q hq _ hmem
        refine hforeign e he c ?_ hc
        rcases hwhich with rfl | rfl <;> cases c <;> cases hrequest <;> simp)
      (by
        intro q hq hmem
        obtain ⟨e, he, hwhich, c, hc, hrequest⟩ := hasked q hq _ hmem
        refine hforeign e he c ?_ hc
        rcases hwhich with rfl | rfl <;> cases c <;> cases hrequest <;> simp)
    obtain ⟨hafter, hseen⟩ := hmet.ledger_after between
    obtain ⟨hafter', hseen'⟩ := hs.ledger_after others
    rw [← hafter] at hresigns
    obtain ⟨s', hcall, hledger, hs'⟩ :=
      ForceTask.unregister_of_resigns (hmet.after between) hresigns
    refine ⟨?_, s', hcall, Assembly.lists_of_ledger hs' (hs.after others) fun place => ?_⟩
    · rw [hseen', hseen, Assembly.requests_renumbered]
      exact hverdicts
    · rw [hledger, htasks, hafter', Assembly.requests_renumbered]
      rfl

/-- A compute registers after another one and stays when that one leaves, be it with one box or with
two patches. -/
theorem membership_exact_pair :
    (∃ h, ((Patch.new ⟨0⟩ 0 false).register .force ⟨7⟩).outcome = .ok h ∧
      ((((Patch.new ⟨0⟩ 0 false).perform (.register .force ⟨7⟩)).2.after
        [.register .force ⟨8⟩]).unregister .force h).patch.ownTasks .force = [⟨8⟩]) ∧
    ∃ task met s', ForceTask.register ⟨⟨7⟩, [⟨0⟩, ⟨1⟩]⟩
        (Assembly.build ⟨4, 0, false, 4⟩ [⟨0⟩, ⟨1⟩]) = (.ok task, met) ∧
      task.unregister (met.after [.onPatch ⟨1⟩ (.register .force ⟨8⟩)]) = (.ok (), s') ∧
      (s'.patch? ⟨1⟩).map Patch.boxTasks = some fun
        | .force => [⟨8⟩]
        | _ => [] := by
  obtain ⟨-, hbox, htask⟩ := membership_exact
  constructor
  · obtain ⟨-, -, hown, -⟩ := hbox ⟨0⟩ 0 false [] [.register .force ⟨8⟩] .force ⟨7⟩ ⟨2, ⟨7⟩, 1⟩ rfl
      (by simp) (by simp)
    exact ⟨_, rfl, congrFun hown .force⟩
  · obtain ⟨-, s', hleft, hlists⟩ := htask ⟨4, 0, false, 4⟩ [⟨0⟩, ⟨1⟩] []
      [.onPatch ⟨1⟩ (.register .force ⟨8⟩)] ⟨⟨7⟩, [⟨0⟩, ⟨1⟩]⟩ _ _ rfl (by simp)
    refine ⟨_, _, s', rfl, hleft, (hlists ⟨1⟩).2.trans (congrArg some (funext fun kind => ?_))⟩
    cases kind <;> rfl

end PatchDynamics
