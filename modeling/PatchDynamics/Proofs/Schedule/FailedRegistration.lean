import PatchDynamics.Proofs.Patch.Rosters

/-!
# Registrations that fail

A task registers with the positions and the forces of its patches, one after the other, and the
first registration that fails ends it. What was registered before stays: nothing is given back, and
no handle is returned. This file says what is left on the patches:

* `Place` — one of the boxes of one of the patches; a task comes to some places in order;
* `enterFirst` — what a registration at a place does to the rolls of all patches;
* `Obstructs` — why a registration at a place fails;
* `Enters` — some registrations in a row that succeed.

The main statement is `register_failure`.
-/

namespace PatchDynamics

/-! ## Places -/

/-- One of the boxes of one of the patches. -/
structure Place where
  /-- the patch -/
  patch : PatchId
  /-- the box -/
  kind : BoxKind
  deriving DecidableEq

/-- The places on some patches, in the order in which a task comes to them. -/
def placesOn (patches : List PatchId) : List Place :=
  patches.flatMap fun patch => [⟨patch, .position⟩, ⟨patch, .force⟩]

/-- The first patch with the number of a place has one more compute there. -/
def enterFirst (task : ComputeId) (place : Place) : List Roll → List Roll
  | [] => []
  | r :: rolls =>
    if r.id = place.patch then r.enter place.kind task :: rolls
    else r :: enterFirst task place rolls

/-- The rolls of all patches once a compute is registered at some places. -/
def enterAll (task : ComputeId) (places : List Place) (rolls : List Roll) : List Roll :=
  places.foldl (fun rolls place => enterFirst task place rolls) rolls

/-- How many registrations there are with the boxes of a patch. -/
def Roll.entries (r : Roll) : Nat :=
  (r.boxes .position).length + (r.boxes .avgPosition).length + (r.boxes .force).length

/-- How many registrations there are, over all patches. -/
def entries : List Roll → Nat
  | [] => 0
  | r :: rolls => r.entries + entries rolls

theorem entries_cons (r : Roll) (rolls : List Roll) :
    entries (r :: rolls) = r.entries + entries rolls := rfl

theorem Roll.entries_enter (r : Roll) (kind : BoxKind) (task : ComputeId) :
    (r.enter kind task).entries = r.entries + 1 := by
  cases kind <;> simp [Roll.entries, Roll.enter, Function.update] <;> omega

/-- Where there is a patch with that number, there is one more registration. -/
theorem entries_enterFirst {task : ComputeId} {place : Place} {rolls : List Roll}
    (hsome : ∃ r ∈ rolls, r.id = place.patch) :
    entries (enterFirst task place rolls) = entries rolls + 1 := by
  induction rolls with
  | nil =>
    obtain ⟨r, hr, -⟩ := hsome
    cases hr
  | cons r rolls ih =>
    rw [enterFirst]
    by_cases hid : r.id = place.patch
    · rw [if_pos hid, entries_cons, entries_cons, Roll.entries_enter, Nat.add_right_comm]
    · obtain ⟨r', hr', hid'⟩ := hsome
      have hmem : r' ∈ rolls := (List.mem_cons.mp hr').resolve_left fun heq => hid (heq ▸ hid')
      rw [if_neg hid, entries_cons, entries_cons, ih ⟨r', hmem, hid'⟩, Nat.add_assoc]

namespace Assembly

variable {s s' : Assembly} {task : ComputeId} {place : Place}

/-- The rolls of all patches. -/
def rolls (s : Assembly) : List Roll := s.patches.map Patch.roll

/-- Why a compute cannot be registered at a place: there is no patch with that number, or the
compute is registered there. -/
def Obstructs (s : Assembly) (task : ComputeId) (place : Place) (e : Failure) : Prop :=
  match s.patch? place.patch with
  | none => e = .taskNamesUnknownPatch task place.patch
  | some p => task ∈ p.boxTasks place.kind ∧
    e = .refused (.alreadyRegistered ⟨place.patch, place.kind⟩ task)

/-! ## One registration -/

/-- A call on the patches finds the first one with the number, which is the one that is changed. -/
theorem changeFirst_cases {α : Type} (id : PatchId) (change : Patch → α × Patch) (l : List Patch) :
    l.find? (fun p => p.id = id) = none ∧ changeFirst id change l = none ∨
      ∃ early p late, l = early ++ p :: late ∧ p.id = id ∧ (∀ q ∈ early, q.id ≠ id) ∧
        l.find? (fun p => p.id = id) = some p ∧
        changeFirst id change l = some ((change p).1, early ++ (change p).2 :: late) := by
  induction l with
  | nil => exact .inl ⟨rfl, rfl⟩
  | cons q l ih =>
    rw [changeFirst]
    by_cases hid : q.id = id
    · rw [if_pos hid]
      exact .inr ⟨[], q, l, rfl, hid, List.forall_mem_nil _,
        List.find?_cons_of_pos (decide_eq_true hid), rfl⟩
    · have hfind : (q :: l).find? (fun p => p.id = id) = l.find? fun p => p.id = id :=
        List.find?_cons_of_neg fun h => hid (of_decide_eq_true h)
      rw [if_neg hid, hfind]
      rcases ih with ⟨hnone, hchange⟩ | ⟨early, p, late, rfl, hp, hearly, hsome, hchange⟩
      · rw [hchange]
        exact .inl ⟨hnone, rfl⟩
      · rw [hchange]
        exact .inr ⟨q :: early, p, late, List.cons_append.symm, hp,
          List.forall_mem_cons.mpr ⟨hid, hearly⟩, hsome, rfl⟩

theorem enterFirst_rolls {early late : List Patch} {p new : Patch} (hp : p.id = place.patch)
    (hearly : ∀ q ∈ early, q.id ≠ place.patch) (hnew : new.roll = p.roll.enter place.kind task) :
    (early ++ new :: late).map Patch.roll =
      enterFirst task place ((early ++ p :: late).map Patch.roll) := by
  induction early with
  | nil =>
    rw [List.nil_append, List.nil_append, List.map_cons, List.map_cons, enterFirst,
      if_pos (show p.roll.id = place.patch from hp), hnew]
  | cons q early ih =>
    rw [List.forall_mem_cons] at hearly
    rw [List.cons_append, List.cons_append, List.map_cons, List.map_cons, enterFirst,
      if_neg (show q.roll.id ≠ place.patch from hearly.1), ih hearly.2]

/-- One more compute is registered at a place. -/
structure Entered (task : ComputeId) (place : Place) (s s' : Assembly) : Prop where
  /-- it comes last in the lists for the place, and no other list changes -/
  rolls : s'.rolls = enterFirst task place s.rolls
  /-- that is one registration more -/
  more : entries s'.rolls = entries s.rolls + 1
  /-- some run of calls has made the patches what they are -/
  reached : ∀ p ∈ s'.patches, p.Reached

/-- **A registration at a place** succeeds, or it is obstructed and changes nothing. -/
theorem onPatch_register (hreached : ∀ p ∈ s.patches, p.Reached) (task : ComputeId)
    (place : Place) :
    (∃ e, onPatch place.patch (.taskNamesUnknownPatch task place.patch)
        (fun p => p.register place.kind task) s = (.error e, s) ∧ s.Obstructs task place e) ∨
      ∃ handle s', onPatch place.patch (.taskNamesUnknownPatch task place.patch)
        (fun p => p.register place.kind task) s = (.ok handle, s') ∧ Entered task place s s' := by
  simp only [onPatch_apply, call, Obstructs, patch?]
  rcases changeFirst_cases place.patch (fun p =>
      (((p.register place.kind task).outcome, (p.register place.kind task).signals),
        (p.register place.kind task).patch)) s.patches with
    ⟨hnone, hchange⟩ | ⟨early, p, late, hsplit, hid, hearly, hsome, hchange⟩
  · rw [hchange, hnone]
    exact .inl ⟨_, rfl, rfl⟩
  · rw [hchange, hsome]
    have hp : p ∈ s.patches := hsplit ▸ List.mem_append_right _ List.mem_cons_self
    obtain ⟨phase, hstands⟩ := (hreached p hp).stands
    rcases Patch.register_cases hstands (hreached p hp).mirrors place.kind task with
      ⟨hmem, hrefused⟩ | ⟨-, handle, new, hok, hroll⟩
    · rw [hrefused, hid]
      refine .inl ⟨_, congrArg (Prod.mk _) ?_, hmem, rfl⟩
      -- the patch and the signals are put back as they were
      dsimp only [Patch.refuse]
      rw [← hsplit]
      simp
    · rw [hok]
      have hrolls : ({ s with
          patches := early ++ new :: late
          signals := s.signals ++ ([] : List Signal) } : Assembly).rolls =
          enterFirst task place s.rolls := by
        rw [rolls, rolls, hsplit]
        exact enterFirst_rolls hid hearly hroll
      have hnew : new.Reached := by
        have hperform := (hreached p hp).perform (.register place.kind task)
        rw [Patch.perform, hok] at hperform
        exact hperform
      refine .inr ⟨handle, _, rfl, hrolls, ?_, ?_⟩
      · rw [hrolls]
        exact entries_enterFirst ⟨p.roll, List.mem_map_of_mem hp, hid⟩
      · intro q hq
        rcases List.mem_append.mp hq with hq | hq
        · exact hreached q (hsplit ▸ List.mem_append_left _ hq)
        · rcases List.mem_cons.mp hq with rfl | hq
          · exact hnew
          · exact hreached q (hsplit ▸ List.mem_append_right _ (List.mem_cons_of_mem _ hq))

/-! ## Registrations in a row -/

/-- A compute is registered at some places, one after the other. -/
inductive Enters (task : ComputeId) : List Place → Assembly → Assembly → Prop where
  /-- at no place -/
  | nil (s : Assembly) : Enters task [] s s
  /-- at one place and then at others -/
  | cons {place : Place} {places : List Place} {s s₁ s' : Assembly}
    (first : Entered task place s s₁) (rest : Enters task places s₁ s') :
    Enters task (place :: places) s s'

namespace Enters

variable {places more : List Place} {s'' : Assembly}

theorem append (h : Enters task places s s') (hmore : Enters task more s' s'') :
    Enters task (places ++ more) s s'' := by
  induction h with
  | nil => exact hmore
  | cons first _ ih => exact .cons first (ih hmore)

theorem rolls (h : Enters task places s s') : s'.rolls = enterAll task places s.rolls := by
  induction h with
  | nil => rfl
  | cons first _ ih => rw [ih, first.rolls, enterAll, enterAll, List.foldl_cons]

theorem entries (h : Enters task places s s') :
    entries s'.rolls = PatchDynamics.entries s.rolls + places.length := by
  induction h with
  | nil => rfl
  | cons first _ ih => rw [ih, first.more, List.length_cons, Nat.add_assoc, Nat.add_comm 1]

theorem reached (h : Enters task places s s') (hreached : ∀ p ∈ s.patches, p.Reached) :
    ∀ p ∈ s'.patches, p.Reached := by
  induction h with
  | nil => exact hreached
  | cons first _ ih => exact ih first.reached

theorem eq_of_nil (h : Enters task [] s s') : s' = s := by
  cases h
  rfl

/-- The rolls are as before exactly if there was no registration. -/
theorem rolls_eq_iff (h : Enters task places s s') : s'.rolls = s.rolls ↔ places = [] := by
  refine ⟨fun hsame => ?_, fun hnone => ?_⟩
  · have hentries := h.entries
    rw [hsame] at hentries
    exact List.eq_nil_of_length_eq_zero (by omega)
  · subst hnone
    rw [h.eq_of_nil]

end Enters

/-- A row of registrations fails: those before the first place that is obstructed are made. -/
def Fails (task : ComputeId) (places : List Place) (s s' : Assembly) (e : Failure) : Prop :=
  ∃ made place rest, places = made ++ place :: rest ∧ Enters task made s s' ∧
    s'.Obstructs task place e

theorem Fails.more {places : List Place} {e : Failure} (h : Fails task places s s' e)
    (more : List Place) : Fails task (places ++ more) s s' e := by
  obtain ⟨made, place, rest, rfl, hmade, hplace⟩ := h
  exact ⟨made, place, rest ++ more, by simp, hmade, hplace⟩

theorem Fails.after {places before : List Place} {e : Failure} {s₁ : Assembly}
    (h : Fails task places s₁ s' e) (hbefore : Enters task before s s₁) :
    Fails task (before ++ places) s s' e := by
  obtain ⟨made, place, rest, rfl, hmade, hplace⟩ := h
  exact ⟨before ++ made, place, rest, by simp, hbefore.append hmade, hplace⟩

end Assembly

namespace ForceTask

variable {s s' : Assembly}

open Assembly

/-- **A registration with a patch** is one with its positions and one with its forces. -/
theorem registerEndpoint_cases (hreached : ∀ p ∈ s.patches, p.Reached) (task : ComputeId)
    (patch : PatchId) :
    (∃ e s', registerEndpoint task patch s = (.error e, s') ∧
        Fails task (placesOn [patch]) s s' e) ∨
      ∃ endpoint s', registerEndpoint task patch s = (.ok endpoint, s') ∧
        Enters task (placesOn [patch]) s s' := by
  rcases onPatch_register hreached task ⟨patch, .position⟩ with
    ⟨e, hcall, hobstructs⟩ | ⟨positions, s₁, hcall, hfirst⟩
  · exact .inl ⟨e, s, bind_of_error hcall _, [], _, _, rfl, .nil s, hobstructs⟩
  · have hrun : registerEndpoint task patch s = _ := bind_of_ok hcall _
    rcases onPatch_register hfirst.reached task ⟨patch, .force⟩ with
      ⟨e, hcall', hobstructs⟩ | ⟨forces, s₂, hcall', hsecond⟩
    · refine .inl ⟨e, s₁, hrun.trans (bind_of_error hcall' _), ?_⟩
      exact ⟨[_], _, [], rfl, .cons hfirst (.nil s₁), hobstructs⟩
    · exact .inr ⟨_, s₂, hrun.trans (bind_of_ok hcall' _), .cons hfirst (.cons hsecond (.nil s₂))⟩

/-- **A registration with some patches** is one at each of the places on them. -/
theorem registerEndpoints_cases (hreached : ∀ p ∈ s.patches, p.Reached) (task : ComputeId)
    (patches : List PatchId) :
    (∃ e s', patches.mapM (registerEndpoint task) s = (.error e, s') ∧
        Fails task (placesOn patches) s s' e) ∨
      ∃ endpoints s', patches.mapM (registerEndpoint task) s = (.ok endpoints, s') ∧
        Enters task (placesOn patches) s s' := by
  induction patches generalizing s with
  | nil => exact .inr ⟨[], s, rfl, .nil s⟩
  | cons patch patches ih =>
    rw [List.mapM_cons]
    have hplaces : placesOn (patch :: patches) = placesOn [patch] ++ placesOn patches := rfl
    rw [hplaces]
    rcases registerEndpoint_cases hreached task patch with
      ⟨e, s', hcall, hfails⟩ | ⟨endpoint, s₁, hcall, hfirst⟩
    · exact .inl ⟨e, s', bind_of_error hcall _, hfails.more _⟩
    · rw [bind_of_ok hcall]
      rcases ih (hfirst.reached hreached) with
        ⟨e, s', hrest, hfails⟩ | ⟨endpoints, s', hrest, henters⟩
      · exact .inl ⟨e, s', bind_of_error hrest _, hfails.after hfirst⟩
      · exact .inr ⟨_, s', bind_of_ok hrest _, hfirst.append henters⟩

/-- **What a registration that fails leaves behind.** Take patches that any runs of calls have made
what they are, and a task with any patches. If its registration fails, it came to some places and
made its registrations there, and at the next place there is no patch with that number, or the
compute is registered there already.

* What it made stays: at each of the places before, the compute comes last in the patch's own list
  and in that of the box, and no other list differs.
* So every list is as before exactly if the first place was obstructed, and then all else is as
  before, too. -/
theorem register_failure (hreached : ∀ p ∈ s.patches, p.Reached) {t : Task} {e : Failure}
    (hfail : register t s = (.error e, s')) :
    ∃ made place rest, placesOn t.patches = made ++ place :: rest ∧ s'.Obstructs t.id place e ∧
      s'.rolls = enterAll t.id made s.rolls ∧ (s'.rolls = s.rolls ↔ made = []) ∧
      (made = [] → s' = s) := by
  rcases registerEndpoints_cases hreached t.id t.patches with
    ⟨e', s₁, hcall, hfails⟩ | ⟨endpoints, s₁, hcall, -⟩
  · have hrun : register t s = (.error e', s₁) := bind_of_error hcall _
    cases hrun.symm.trans hfail
    obtain ⟨made, place, rest, hsplit, hmade, hobstructs⟩ := hfails
    refine ⟨made, place, rest, hsplit, hobstructs, hmade.rolls, hmade.rolls_eq_iff, ?_⟩
    rintro rfl
    exact hmade.eq_of_nil
  · have hrun : register t s = (.ok ⟨t.id, endpoints⟩, s₁) := bind_of_ok hcall _
    cases hrun.symm.trans hfail

/-- Two patches, and a compute that is registered with the second one. -/
def halfTaken : Assembly :=
  (register ⟨⟨7⟩, [⟨1⟩]⟩ (Assembly.build ⟨4, 0, false, 4⟩ [⟨0⟩, ⟨1⟩])).2

theorem reached_halfTaken : ∀ p ∈ halfTaken.patches, p.Reached := by
  have hpatches : halfTaken.patches = [(Patch.new ⟨0⟩ 0 false).after [],
    (Patch.new ⟨1⟩ 3 false).after [.register .position ⟨7⟩, .register .force ⟨7⟩]] := rfl
  rw [hpatches]
  refine List.forall_mem_cons.mpr ⟨⟨_, _, _, _, rfl⟩, List.forall_mem_singleton.mpr ?_⟩
  exact ⟨_, _, _, _, rfl⟩

/-- The second patch refuses the compute, and it stays registered with the first. -/
theorem register_failure_second :
    ∃ s', register ⟨⟨7⟩, [⟨0⟩, ⟨1⟩]⟩ halfTaken =
        (.error (.refused (.alreadyRegistered ⟨⟨1⟩, .position⟩ ⟨7⟩)), s') ∧
      ∃ made place rest, placesOn [⟨0⟩, ⟨1⟩] = made ++ place :: rest ∧
        s'.Obstructs ⟨7⟩ place (.refused (.alreadyRegistered ⟨⟨1⟩, .position⟩ ⟨7⟩)) ∧
        s'.rolls = enterAll ⟨7⟩ made halfTaken.rolls ∧
        (s'.rolls = halfTaken.rolls ↔ made = []) ∧ (made = [] → s' = halfTaken) := by
  have hfail : register ⟨⟨7⟩, [⟨0⟩, ⟨1⟩]⟩ halfTaken =
      (.error (.refused (.alreadyRegistered ⟨⟨1⟩, .position⟩ ⟨7⟩)),
        (register ⟨⟨7⟩, [⟨0⟩, ⟨1⟩]⟩ halfTaken).2) := rfl
  exact ⟨_, hfail, register_failure reached_halfTaken hfail⟩

/-- **A registration that fails is not undone**: the first patch waits for a deposit from then on
that nobody has a handle for. -/
theorem failed_registration_remains :
    (∀ p ∈ halfTaken.patches, p.Reached) ∧
    ∃ e s', register ⟨⟨7⟩, [⟨0⟩, ⟨1⟩]⟩ halfTaken = (.error e, s') ∧
      halfTaken.patches.map (fun p => (p.boxTasks .position, p.boxTasks .force)) =
        [([], []), ([⟨7⟩], [⟨7⟩])] ∧
      s'.patches.map (fun p => (p.boxTasks .position, p.boxTasks .force)) =
        [([⟨7⟩], [⟨7⟩]), ([⟨7⟩], [⟨7⟩])] ∧
      halfTaken.patches.map (fun p => p.forceBox.expected) = [0, 1] ∧
      s'.patches.map (fun p => p.forceBox.expected) = [1, 1] :=
  ⟨reached_halfTaken, _, _, rfl, rfl, rfl, rfl, rfl⟩

end ForceTask

end PatchDynamics
