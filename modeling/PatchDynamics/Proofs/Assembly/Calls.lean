import Mathlib.Data.List.Nodup
import PatchDynamics.Assembly
import PatchDynamics.Proofs.Lists

/-!
# Calls on the patches of an assembly

An assembly finds a patch by its number. Where the numbers are different, a call on one patch
changes that patch and no other, and the integrator hears what the patch says:

* `onPatch_eq` — a call that is known to succeed, on an assembly whose patches are known;
* `onPatch_ok` — what a call has done that succeeded;
* `frame_onPatch` — what no call touches.
-/

namespace PatchDynamics

namespace Assembly

variable {α : Type} {l : List Patch} {state : Patch → Patch} {p : Patch}

/-- The patches with one of them replaced. -/
def putPatch (l : List Patch) (state : Patch → Patch) (p new : Patch) : List Patch :=
  l.map fun q => if q.id = p.id then new else state q

theorem putPatch_of_not_mem (hp : p.id ∉ l.map Patch.id) (new : Patch) :
    putPatch l state p new = l.map state := by
  refine List.map_congr_left fun q hq => if_neg fun heq => hp ?_
  exact heq ▸ List.mem_map_of_mem hq

/-- The first patch with a number is the only one. -/
theorem changeFirst_map (hid : ∀ q ∈ l, (state q).id = q.id) (nodup : (l.map Patch.id).Nodup)
    (hp : p ∈ l) (change : Patch → α × Patch) :
    changeFirst p.id change (l.map state) =
      some ((change (state p)).1, putPatch l state p (change (state p)).2) := by
  induction l with
  | nil => cases hp
  | cons q rest ih =>
    rw [List.map_cons, List.nodup_cons] at nodup
    rw [List.forall_mem_cons] at hid
    rw [List.map_cons, changeFirst, hid.1]
    rcases List.mem_cons.mp hp with rfl | hp
    · rw [if_pos rfl, putPatch, List.map_cons, if_pos rfl, ← putPatch, putPatch_of_not_mem nodup.1]
    · have hne : q.id ≠ p.id := fun heq => nodup.1 (heq ▸ List.mem_map_of_mem hp)
      rw [if_neg hne, ih hid.2 nodup.2 hp, putPatch, putPatch, List.map_cons, if_neg hne]
      rfl

theorem changeFirst_of_not_mem {id : PatchId} (hnone : id ∉ l.map Patch.id)
    (change : Patch → α × Patch) : changeFirst id change l = none := by
  induction l with
  | nil => rfl
  | cons q rest ih =>
    rw [List.map_cons, List.mem_cons, not_or] at hnone
    rw [changeFirst, if_neg (Ne.symm hnone.1), ih hnone.2]
    rfl

variable {s : Assembly} {f : Patch → Patch.Reply α}

theorem call_eq (hpatches : s.patches = l.map state) (hid : ∀ q ∈ l, (state q).id = q.id)
    (nodup : (l.map Patch.id).Nodup) (hp : p ∈ l) :
    s.call p.id f = some ((f (state p)).outcome,
      { s with
        patches := putPatch l state p (f (state p)).patch
        signals := s.signals ++ (f (state p)).signals }) := by
  rw [call, hpatches, changeFirst_map hid nodup hp]
  rfl

theorem onPatch_apply (id : PatchId) (absent : Failure) :
    onPatch id absent f s = (match s.call id f with
    | none => throw absent
    | some (outcome, s) => do
      set s
      Action.ofRefusable outcome : Action Assembly α) s := rfl

theorem onPatch_of_call {id : PatchId} (absent : Failure) {outcome : Except Refusal α}
    {s' : Assembly} (hcall : s.call id f = some (outcome, s')) :
    onPatch id absent f s = Action.ofRefusable outcome s' := by
  rw [onPatch_apply, hcall]
  rfl

theorem onPatch_of_not_mem {id : PatchId} (absent : Failure) (hnone : id ∉ s.patches.map Patch.id) :
    onPatch id absent f s = (.error absent, s) := by
  have hcall : s.call id f = none := by
    rw [call, changeFirst_of_not_mem hnone]
    rfl
  rw [onPatch_apply, hcall]
  rfl

/-- **A call that succeeds** on a patch of an assembly. -/
theorem onPatch_eq (hpatches : s.patches = l.map state) (hid : ∀ q ∈ l, (state q).id = q.id)
    (nodup : (l.map Patch.id).Nodup) (hp : p ∈ l) (absent : Failure) {a : α}
    {signals : List Signal} {new : Patch} (hreply : f (state p) = ⟨.ok a, signals, new⟩) :
    onPatch p.id absent f s =
      (.ok a, { s with
        patches := putPatch l state p new
        signals := s.signals ++ signals }) := by
  have hcall := call_eq (f := f) hpatches hid nodup hp
  rw [hreply] at hcall
  rw [onPatch_of_call absent hcall]
  rfl

/-- **What a call has done that succeeded**. -/
theorem onPatch_ok (nodup : (s.patches.map Patch.id).Nodup) {id : PatchId} {absent : Failure}
    {a : α} {s' : Assembly} (h : onPatch id absent f s = (.ok a, s')) :
    ∃ p ∈ s.patches, p.id = id ∧ (f p).outcome = .ok a ∧
      s' = { s with
        patches := putPatch s.patches (fun q => q) p (f p).patch
        signals := s.signals ++ (f p).signals } := by
  -- a call on a patch that is not there fails
  by_cases hmem : id ∈ s.patches.map Patch.id
  · obtain ⟨p, hp, rfl⟩ := List.mem_map.mp hmem
    have hcall := call_eq (f := f) (List.map_id' s.patches).symm (fun _ _ => rfl) nodup hp
    rw [onPatch_of_call absent hcall] at h
    cases houtcome : (f p).outcome with
    | error r =>
      rw [houtcome] at h
      cases h
    | ok b =>
      rw [houtcome] at h
      cases h
      exact ⟨p, hp, rfl, houtcome, rfl⟩
  · rw [onPatch_of_not_mem absent hmem] at h
    cases h

/-! ## What calls leave alone -/

/-- The assembly without its patches and without what the integrator was told. -/
def frame (s : Assembly) : Assembly := { s with patches := [], signals := #[] }

/-- A call on a patch leaves the rest of the assembly alone, whether or not it succeeds. -/
theorem frame_onPatch (id : PatchId) (absent : Failure) (f : Patch → Patch.Reply α)
    (s : Assembly) : (onPatch id absent f s).2.frame = s.frame := by
  rw [onPatch_apply]
  cases hcall : s.call id f with
  | none => rfl
  | some result =>
    rw [call, Option.map_eq_some_iff] at hcall
    obtain ⟨⟨⟨outcome, signals⟩, patches⟩, -, rfl⟩ := hcall
    cases outcome <;> rfl

/-- Assemblies that agree on their patches and on the rest agree on all but the signals. -/
theorem takeSignals_eq {s s' : Assembly} (hpatches : s.patches = s'.patches)
    (hframe : s.frame = s'.frame) : s.takeSignals.2 = s'.takeSignals.2 := by
  have hsame := congrArg (fun f : Assembly => { f with patches := s.patches }) hframe
  rw [hpatches] at hsame
  cases s
  cases s'
  cases hpatches
  exact hsame

end Assembly

end PatchDynamics
