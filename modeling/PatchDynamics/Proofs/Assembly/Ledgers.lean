import PatchDynamics.Proofs.Patch.Ledgers
import PatchDynamics.Proofs.Schedule.FailedRegistration
import PatchDynamics.Proofs.Schedule.Registration

/-!
# The ledger of an assembly

The books of all patches of an assembly, place by place. A call on a patch changes the one that is
found under its number, so what was shown of the books of one patch holds of all of them:

* `Assembly.ledger` — the books, `Assembly.Changed` — what a call on one of the patches leaves;
* `Assembly.Reached.ledger_after` — a run of calls is a run of requests;
* `Assembly.Reached.register_ok`, `Assembly.Reached.unregister_ok` — calls that succeed;
* `Assembly.lists_of_ledger` — what the books tell of the lists.
-/

namespace PatchDynamics

namespace Assembly

/-! ## The books of all patches -/

variable {s s' : Assembly} {id : PatchId} {kind : BoxKind} {request : Request}

/-- The books of all patches; of several patches with the same number, those of the first. -/
def ledger (s : Assembly) : Ledger Place := fun place =>
  (s.patch? place.patch).map fun p => p.book place.kind

/-- All patches are what runs of calls have made of new ones. -/
def Reached (s : Assembly) : Prop := ∀ p ∈ s.patches, p.Reached

/-- The second assembly has another patch in the place of the one with a number. -/
structure Changed (id : PatchId) (f : Patch → Patch) (s s' : Assembly) : Prop where
  /-- it is found under the number, and the others are found as before -/
  patch : ∀ other, s'.patch? other = if other = id then (s.patch? id).map f else s.patch? other
  /-- there are no other new patches -/
  mem : ∀ q ∈ s'.patches, q ∈ s.patches ∨ ∃ p ∈ s.patches, q = f p

theorem Changed.refl_of_none (hnone : s.patch? id = none) (f : Patch → Patch) :
    Changed id f s s where
  patch other := by
    by_cases hsame : other = id
    · rw [if_pos hsame, hsame, hnone, Option.map_none]
    · rw [if_neg hsame]
  mem q hq := .inl hq

/-- Changing the first patch with a number changes the one that is found under it. -/
theorem changed_of_changeFirst {α : Type} {change : Patch → α × Patch} {f : Patch → Patch}
    (hid : ∀ p ∈ s.patches, (f p).id = p.id) {a : α}
    (h : changeFirst id change s.patches = some (a, s'.patches)) (hf : ∀ p, (change p).2 = f p) :
    Changed id f s s' := by
  rcases changeFirst_cases id change s.patches with
    ⟨-, hnone⟩ | ⟨early, p, late, hsplit, hp, hearly, hsome, hchange⟩
  · cases hnone.symm.trans h
  · obtain ⟨-, hpatches⟩ := Prod.mk.inj (Option.some.inj (hchange.symm.trans h))
    have hmem : p ∈ s.patches := hsplit ▸ List.mem_append_right _ List.mem_cons_self
    have hnew : (f p).id = id := (hid p hmem).trans hp
    rw [hf] at hpatches
    constructor
    · intro other
      rw [patch?, patch?, ← hpatches]
      by_cases hsame : other = id
      · have hskip : early.find? (fun q => q.id = id) = none := List.find?_eq_none.mpr
          fun q hq heq => hearly q hq (of_decide_eq_true heq)
        rw [if_pos hsame, hsame, hsome, List.find?_append, hskip, Option.none_or,
          List.find?_cons_of_pos (a := f p) (decide_eq_true hnew), Option.map_some]
      · have hskip : ∀ q : Patch, q.id = id →
            (q :: late).find? (fun q => q.id = other) = late.find? fun q => q.id = other :=
          fun q hq => List.find?_cons_of_neg fun heq =>
            hsame ((of_decide_eq_true heq).symm.trans hq)
        rw [if_neg hsame, patch?, hsplit, List.find?_append, List.find?_append, hskip _ hnew,
          hskip p hp]
    · intro q hq
      rw [← hpatches] at hq
      rw [hsplit]
      simp only [List.mem_append, List.mem_cons] at hq ⊢
      rcases hq with hq | rfl | hq
      · exact .inl (.inl hq)
      · exact .inr ⟨p, .inr (.inl rfl), rfl⟩
      · exact .inl (.inr (.inr hq))

theorem changed_of_none {α : Type} {change : Patch → α × Patch}
    (h : changeFirst id change s.patches = none) (f : Patch → Patch) : Changed id f s s := by
  refine .refl_of_none ?_ f
  rcases changeFirst_cases id change s.patches with ⟨hnone, -⟩ | ⟨_, _, _, -, -, -, -, hsome⟩
  · exact hnone
  · cases h.symm.trans hsome

namespace Changed

variable {f : Patch → Patch}

theorem mem_of_patch? {p : Patch} (hp : s.patch? id = some p) : p ∈ s.patches :=
  List.mem_of_find?_eq_some hp

/-- The books at other places are as before. -/
theorem ledger_of_ne (h : Changed id f s s') {place : Place} (hne : place.patch ≠ id) :
    s'.ledger place = s.ledger place := by
  rw [ledger, ledger, h.patch, if_neg hne]

/-- A change that keeps the books. -/
theorem ledger_eq (h : Changed id f s s') (hf : ∀ p ∈ s.patches, (f p).ledger = p.ledger) :
    s'.ledger = s.ledger := by
  funext place
  by_cases hsame : place.patch = id
  · rw [ledger, ledger, h.patch, if_pos hsame, hsame, Option.map_map]
    refine Option.map_congr fun p hp => ?_
    exact Option.some.inj (congrFun (hf p (mem_of_patch? hp)) place.kind)
  · exact h.ledger_of_ne hsame

/-- A change that makes of the books what is asked of them. -/
theorem ledger_next (h : Changed id f s s')
    (hf : ∀ p ∈ s.patches, (f p).ledger = p.ledger.next kind request) :
    s'.ledger = s.ledger.next ⟨id, kind⟩ request := by
  funext place
  by_cases hsame : place.patch = id
  · obtain ⟨patch, k⟩ := place
    obtain rfl : patch = id := hsame
    have hbooks : ∀ p, s.patch? patch = some p →
        some ((f p).book k) = p.ledger.next kind request k := fun p hp =>
      congrFun (hf p (mem_of_patch? hp)) k
    rw [ledger, h.patch, if_pos rfl]
    by_cases hk : k = kind
    · subst hk
      rw [Ledger.next_self, ledger]
      cases hp : s.patch? patch with
      | none => rfl
      | some p =>
        have hbook := hbooks p hp
        rw [Ledger.next_self] at hbook
        exact hbook
    · have hplace : (⟨patch, k⟩ : Place) ≠ ⟨patch, kind⟩ := fun heq =>
        hk (congrArg Place.kind heq)
      rw [Ledger.next_of_ne _ _ hplace, ledger]
      cases hp : s.patch? patch with
      | none => rfl
      | some p =>
        have hbook := hbooks p hp
        rw [Ledger.next_of_ne _ _ hk] at hbook
        exact hbook
  · have hplace : place ≠ ⟨id, kind⟩ := fun heq => hsame (congrArg Place.patch heq)
    rw [h.ledger_of_ne hsame, Ledger.next_of_ne _ _ hplace]

theorem reached (h : Changed id f s s') (hs : s.Reached)
    (hf : ∀ p ∈ s.patches, (f p).Reached) : s'.Reached := by
  intro q hq
  rcases h.mem q hq with hq | ⟨p, hp, rfl⟩
  · exact hs q hq
  · exact hf p hp

end Changed

/-! ## Calls on an assembly -/

theorem Reached.id_perform (hs : s.Reached) (c : Patch.Call) :
    ∀ p ∈ s.patches, (p.perform c).2.id = p.id := by
  intro p hp
  obtain ⟨phase, hstands⟩ := (hs p hp).stands
  exact (hstands.exists_perform c).2

/-- A call on a patch changes the one that is found under the number. -/
theorem Reached.changed_perform (hs : s.Reached) (id : PatchId) (c : Patch.Call) :
    Changed id (fun p => (p.perform c).2) s (s.perform (.onPatch id c)) := by
  rw [perform, call]
  dsimp only
  generalize hchange : changeFirst id _ s.patches = result
  cases result with
  | none => exact changed_of_none hchange _
  | some result =>
    obtain ⟨⟨outcome, signals⟩, patches⟩ := result
    exact changed_of_changeFirst (hs.id_perform c) hchange fun _ => rfl

/-- Replacing the membership of a patch is a call on it. -/
theorem Reached.changed_replaceAtoms (hs : s.Reached) (id : PatchId) (atoms : List Atom) :
    Changed id (fun p => (p.perform (.replaceAtoms s.directory atoms)).2) s
      (s.perform (.replaceAtoms id atoms)) := by
  rw [perform, Assembly.replaceAtoms]
  dsimp only
  generalize hchange : changeFirst id _ s.patches = result
  cases result with
  | none => exact changed_of_none hchange _
  | some result =>
    obtain ⟨⟨outcome, directory⟩, patches⟩ := result
    exact changed_of_changeFirst (hs.id_perform _) hchange fun _ => rfl

/-- What a call asks of the books. -/
def Call.request? : Call → Option (Place × Request)
  | .onPatch patch c => c.request?.map fun q => (⟨patch, q.1⟩, q.2)
  | _ => none

/-- What is said to a call that asks something of the books. -/
def verdict? (s : Assembly) : Call → Option Verdict
  | .onPatch patch c =>
    match s.patch? patch with
    | some p => p.verdict? c
    | none => c.request?.map fun _ => .refused
  | _ => none

theorem Reached.perform (hs : s.Reached) (c : Call) : (s.perform c).Reached := by
  cases c with
  | replaceAtoms id atoms =>
    exact (hs.changed_replaceAtoms id atoms).reached hs fun p hp => (hs p hp).perform _
  | onPatch id c => exact (hs.changed_perform id c).reached hs fun p hp => (hs p hp).perform c
  | clear => exact hs

/-- A call that asks nothing of the books keeps them. -/
theorem Reached.ledger_perform (hs : s.Reached) {c : Call} (hnone : c.request? = none) :
    (s.perform c).ledger = s.ledger ∧ s.verdict? c = none := by
  have hkeeps : ∀ {c : Patch.Call}, c.request? = none →
      ∀ p ∈ s.patches, (p.perform c).2.ledger = p.ledger := fun hc p hp => by
    obtain ⟨phase, hstands⟩ := (hs p hp).stands
    exact hstands.ledger_perform (hs p hp).orderly hc
  cases c with
  | replaceAtoms id atoms => exact ⟨(hs.changed_replaceAtoms id atoms).ledger_eq (hkeeps rfl), rfl⟩
  | onPatch id c =>
    have hc : c.request? = none := Option.map_eq_none_iff.mp hnone
    refine ⟨(hs.changed_perform id c).ledger_eq (hkeeps hc), ?_⟩
    rw [verdict?, hc]
    cases s.patch? id with
    | none => rfl
    | some p => exact Patch.verdict?_of_none hc
  | clear => exact ⟨rfl, rfl⟩

/-- **One call** makes of the books what it asks of them. -/
theorem Reached.request_perform (hs : s.Reached) {c : Call} {place : Place} {request : Request}
    (hrequest : c.request? = some (place, request)) :
    s.verdict? c = some (s.ledger.verdict place request) ∧
      (s.perform c).ledger = s.ledger.next place request := by
  cases c with
  | replaceAtoms id atoms => cases hrequest
  | clear => cases hrequest
  | onPatch id c =>
    obtain ⟨⟨kind, r⟩, hc, heq⟩ := Option.map_eq_some_iff.mp hrequest
    cases heq
    refine ⟨?_, (hs.changed_perform id c).ledger_next fun p hp =>
      ((hs p hp).orderly.request_perform hc).2⟩
    rw [verdict?, Ledger.verdict, ledger, hc]
    cases hp : s.patch? id with
    | none => rfl
    | some p => exact ((hs p (List.mem_of_find?_eq_some hp)).orderly.request_perform hc).1

/-! ## Runs on an assembly -/

/-- What some calls ask of the books. -/
def requests (calls : List Call) : List (Place × Request) := calls.filterMap Call.request?

/-- What is said to those calls of a run that ask something of the books, in order. -/
def verdicts (s : Assembly) (calls : List Call) : List Verdict :=
  (trace perform verdict? s calls).reduceOption

/-- **A run of calls is a run of requests.** -/
theorem Reached.ledger_after (hs : s.Reached) (calls : List Call) :
    (s.after calls).ledger = s.ledger.after (requests calls) ∧
      s.verdicts calls = s.ledger.verdicts (requests calls) := by
  have hkeeps : ∀ (s : Assembly) (c : Call), s.Reached → (s.perform c).Reached :=
    fun _ c hs => hs.perform c
  exact Ledger.run_eq hkeeps (fun _ _ hs => hs.ledger_perform) (fun _ _ _ hs => hs.request_perform)
    hs calls

theorem Reached.after (hs : s.Reached) (calls : List Call) : (s.after calls).Reached := by
  induction calls generalizing s with
  | nil => exact hs
  | cons c calls ih => exact ih (hs.perform c)

theorem reached_build (settings : Settings) (ids : List PatchId) : (build settings ids).Reached :=
  fun _ hp => (new_of_build hp).1

/-- Which of the three boxes of its patch a box is, counted from zero. -/
def offset : BoxKind → Nat
  | .position => 0
  | .avgPosition => 1
  | .force => 2

/-- The books of a new assembly are sound, and its boxes have different numbers. -/
theorem sound_build (settings : Settings) (ids : List PatchId) :
    (build settings ids).ledger.Sound := by
  refine ⟨fun place b hb => ?_, fun i j n hi hj => ?_⟩
  · obtain ⟨p, hp, rfl⟩ := Option.map_eq_some_iff.mp hb
    exact ((reached_build settings ids) p (Changed.mem_of_patch? hp)).sound.books place.kind _ rfl
  · -- the number of a box tells the index of its patch and the box
    have hserial : ∀ place n, (build settings ids).ledger.serials place = some n →
        ∃ index, ids[index]? = some place.patch ∧ n = 3 * index + offset place.kind := by
      intro place n hn
      obtain ⟨b, hb, rfl⟩ := Option.map_eq_some_iff.mp hn
      obtain ⟨p, hp, rfl⟩ := Option.map_eq_some_iff.mp hb
      have hfound := List.find?_some hp
      have hid : p.id = place.patch := of_decide_eq_true hfound
      obtain ⟨⟨id, index⟩, hmem, rfl⟩ := List.mem_map.mp (Changed.mem_of_patch? hp)
      refine ⟨index, ?_, ?_⟩
      · rw [← hid]
        exact List.mem_zipIdx_iff_getElem?.mp hmem
      · cases place.kind <;> rfl
    obtain ⟨a, ha, rfl⟩ := hserial i n hi
    obtain ⟨b, hb, heq⟩ := hserial j _ hj
    obtain ⟨patch, kind⟩ := i
    obtain ⟨patch', kind'⟩ := j
    have hboth : a = b ∧ kind = kind' := by
      cases kind <;> cases kind' <;> dsimp only [offset] at heq <;> first
        | exact ⟨by omega, rfl⟩
        | omega
    obtain ⟨rfl, rfl⟩ := hboth
    cases ha.symm.trans hb
    rfl

/-- The call with the handles that take the places of its own where some were never issued. -/
def Call.renumbered (gone : List Handle) : Call → Call
  | .onPatch patch c => .onPatch patch (c.renumbered gone)
  | c => c

theorem requests_renumbered (gone : List Handle) (calls : List Call) :
    requests (calls.map (Call.renumbered gone)) =
      (requests calls).map fun q => (q.1, q.2.map (Handle.renumbered gone)) := by
  rw [requests, requests, List.filterMap_map, List.map_filterMap]
  refine List.filterMap_congr fun c _ => ?_
  cases c with
  | onPatch patch c => cases c <;> rfl
  | replaceAtoms patch atoms => rfl
  | clear => rfl

/-! ## Calls that succeed -/

/-- A call on a patch that is there is made by the first one with the number. -/
theorem onPatch_changed {α : Type} {f : Patch → Patch.Reply α}
    (hid : ∀ p ∈ s.patches, (f p).patch.id = p.id) (absent : Failure) :
    s.patch? id = none ∧ onPatch id absent f s = (.error absent, s) ∨
      ∃ p s', s.patch? id = some p ∧ Changed id (fun p => (f p).patch) s s' ∧
        onPatch id absent f s = Action.ofRefusable (f p).outcome s' := by
  rw [onPatch_apply, call]
  rcases changeFirst_cases id
      (fun p => (((f p).outcome, (f p).signals), (f p).patch)) s.patches with
    ⟨hnone, hchange⟩ | ⟨early, p, late, -, -, -, hsome, hchange⟩
  · rw [hchange]
    exact .inl ⟨hnone, rfl⟩
  · rw [hchange]
    have hchanged : Changed id (fun p => (f p).patch) s { s with
        patches := early ++ (f p).patch :: late
        signals := s.signals ++ (f p).signals } :=
      changed_of_changeFirst hid hchange fun _ => rfl
    exact .inr ⟨p, _, hsome, hchanged, rfl⟩

theorem verdict_of_patch? {p : Patch} (hp : s.patch? id = some p) (kind : BoxKind)
    (request : Request) :
    s.ledger.verdict ⟨id, kind⟩ request = p.ledger.verdict kind request := by
  rw [Ledger.verdict, ledger, hp]
  rfl

/-- **A registration that succeeds** was asked of the books. -/
theorem Reached.register_ok (hs : s.Reached) {task : ComputeId} {absent : Failure} {handle : Handle}
    (h : onPatch id absent (fun p => p.register kind task) s = (.ok handle, s')) :
    s.ledger.verdict ⟨id, kind⟩ (.register task) = .issued handle ∧
      s'.ledger = s.ledger.next ⟨id, kind⟩ (.register task) ∧ s'.Reached := by
  rcases onPatch_changed (hs.id_perform (.register kind task)) absent with
    ⟨-, hcall⟩ | ⟨p, s₁, hp, hchanged, hcall⟩
  · cases hcall.symm.trans h
  · have hcall := hcall.symm.trans h
    rcases p.register_cases_ledger kind task with ⟨r, hr, -⟩ | ⟨g, new, hok, hv, -⟩
    · rw [hr] at hcall
      cases hcall
    · rw [hok] at hcall
      cases hcall
      refine ⟨(verdict_of_patch? hp kind _).trans hv, ?_, ?_⟩
      · exact hchanged.ledger_next fun q hq =>
          ((hs q hq).orderly.request_perform (c := .register kind task) rfl).2
      · exact hchanged.reached hs fun q hq => (hs q hq).perform (.register kind task)

/-- **A handle that the books take back** is taken back. -/
theorem Reached.unregister_ok (hs : s.Reached) {h : Handle} (absent : Failure)
    (hv : s.ledger.verdict ⟨id, kind⟩ (.unregister h) = .returned) :
    ∃ s', onPatch id absent (fun p => p.unregister kind h) s = (.ok (), s') ∧
      s'.ledger = s.ledger.next ⟨id, kind⟩ (.unregister h) ∧ s'.Reached := by
  rcases onPatch_changed (hs.id_perform (.unregister kind h)) absent with
    ⟨hnone, -⟩ | ⟨p, s₁, hp, hchanged, hcall⟩
  · rw [Ledger.verdict, ledger, hnone] at hv
    cases hv
  · have hmem := Changed.mem_of_patch? hp
    rw [verdict_of_patch? hp] at hv
    rcases (hs p hmem).orderly.unregister_cases_ledger kind h with
      ⟨r, -, hrefused⟩ | ⟨new, hok, -, -⟩
    · cases hrefused.symm.trans hv
    · rw [hok] at hcall
      refine ⟨s₁, hcall, ?_, ?_⟩
      · exact hchanged.ledger_next fun q hq =>
          ((hs q hq).orderly.request_perform (c := .unregister kind h) rfl).2
      · exact hchanged.reached hs fun q hq => (hs q hq).perform (.unregister kind h)

/-- The same computes are registered where the books say so, at all places. -/
theorem lists_of_ledger {s s' : Assembly} (hs : s.Reached) (hs' : s'.Reached)
    (h : ∀ place, (s.ledger place).map Book.tasks = (s'.ledger place).map Book.tasks)
    (id : PatchId) :
    (s.patch? id).map Patch.ownTasks = (s'.patch? id).map Patch.ownTasks ∧
      (s.patch? id).map Patch.boxTasks = (s'.patch? id).map Patch.boxTasks := by
  have hplace : ∀ kind, (s.patch? id).map (fun p => p.boxTasks kind) =
      (s'.patch? id).map fun p => p.boxTasks kind := by
    intro kind
    have hsame := h ⟨id, kind⟩
    rw [ledger, ledger, Option.map_map, Option.map_map] at hsame
    simpa only [Function.comp_def, Patch.tasks_book] using hsame
  cases hp : s.patch? id with
  | none =>
    cases hq : s'.patch? id with
    | none => exact ⟨rfl, rfl⟩
    | some q =>
      have hsame := hplace .force
      rw [hp, hq] at hsame
      cases hsame
  | some p =>
    cases hq : s'.patch? id with
    | none =>
      have hsame := hplace .force
      rw [hp, hq] at hsame
      cases hsame
    | some q =>
      have hboxes : p.boxTasks = q.boxTasks := funext fun kind => by
        have hsame := hplace kind
        rw [hp, hq] at hsame
        exact Option.some.inj hsame
      have hown : p.ownTasks = q.ownTasks :=
        ((hs p (Changed.mem_of_patch? hp)).mirrors.trans hboxes).trans
          (hs' q (Changed.mem_of_patch? hq)).mirrors.symm
      rw [Option.map_some, Option.map_some, Option.map_some, Option.map_some, hboxes, hown]
      exact ⟨rfl, rfl⟩

end Assembly

end PatchDynamics
