import PatchDynamics.Proofs.Schedule.Crew

/-!
# Registered tasks

Tasks are registered on patches at rest, and what they hold after that is what the patches know of
them:

* `Enrolled` — the invariant: the handles on the forces of each patch are those that the tasks hold,
  in order, and their handles on positions are good;
* `Enrolled.put` — a change of one patch that forgets nothing keeps it;
* `Enrolled.registerAll` — so does registering tasks one after the other.
-/

namespace PatchDynamics

/-! ## One registration -/

/-- A registration that succeeds adds its handle at the end. -/
theorem Box.handles_register {P D : Type} {b : Box P D} {task : ComputeId} {h : Handle}
    (hok : (b.register task).outcome = .ok h) :
    (b.register task).box.handles = b.handles ++ [h] := by
  rw [register] at hok ⊢
  split at hok
  · cases hok
  · next hnew =>
    obtain rfl := Except.ok.inj hok
    rw [if_neg hnew, handles, List.map_append]
    rfl

namespace Patch

/-- A patch at rest, with its boxes in order. -/
structure AtRest (p : Patch) : Prop where
  /-- the patch is at rest -/
  stands : p.Stands .idle
  /-- the boxes are in order -/
  orderly : p.Orderly

variable {p : Patch} {task : ComputeId} {h : Handle}

/-- What a registration on positions does that succeeds. -/
theorem register_position_ok (hok : (p.register .position task).outcome = .ok h) :
    (p.positionBox.register task).outcome = .ok h ∧
      (p.register .position task).patch = { p with
        positionBox := (p.positionBox.register task).box
        readers := (p.readers.insert task).2 } := by
  rw [register] at hok ⊢
  cases houtcome : (p.positionBox.register task).outcome with
  | error r =>
    rw [houtcome] at hok
    cases hok
  | ok g =>
    rw [houtcome] at hok
    exact ⟨hok, rfl⟩

/-- What a registration on forces does that succeeds. -/
theorem register_force_ok (hok : (p.register .force task).outcome = .ok h) :
    (p.forceBox.register task).outcome = .ok h ∧
      (p.register .force task).patch = { p with
        forceBox := (p.forceBox.register task).box
        contributors := (p.contributors.insert task).2 } := by
  rw [register] at hok ⊢
  cases houtcome : (p.forceBox.register task).outcome with
  | error r =>
    rw [houtcome] at hok
    cases hok
  | ok g =>
    rw [houtcome] at hok
    exact ⟨hok, rfl⟩

theorem AtRest.register_position (hp : p.AtRest)
    (hok : (p.register .position task).outcome = .ok h) :
    (p.register .position task).patch.AtRest := by
  refine ⟨?_, hp.orderly.touched (p.touched_register .position task)⟩
  rw [(register_position_ok hok).2]
  exact hp.stands.same ⟨rfl, rfl⟩ rfl (p.positionBox.standing_register task) rfl rfl rfl rfl

theorem AtRest.register_force (hp : p.AtRest) (hok : (p.register .force task).outcome = .ok h) :
    (p.register .force task).patch.AtRest := by
  refine ⟨?_, hp.orderly.touched (p.touched_register .force task)⟩
  rw [(register_force_ok hok).2]
  exact hp.stands.same ⟨rfl, rfl⟩ rfl rfl rfl (p.forceBox.standing_register task) rfl rfl

end Patch

/-! ## What the patches know of the tasks -/

/-- The patches while tasks are being registered: they are at rest, and what they know of handles is
what is held. -/
structure Enrolled (ids : List PatchId) (held : List Endpoint) (patches : List Patch) : Prop where
  /-- the patches have these numbers -/
  named : patches.map Patch.id = ids
  /-- the numbers are different -/
  distinct : ids.Nodup
  /-- the patches are at rest -/
  resting : ∀ p ∈ patches, p.AtRest
  /-- handles on positions are good -/
  present : ∀ e ∈ held, ∃ p ∈ patches, p.id = e.patch ∧ e.positions ∈ p.positionBox.handles
  /-- the handles on the forces of a patch are those that are held of it -/
  handles : ∀ p ∈ patches,
    p.forceBox.handles = (held.filter fun e => e.patch = p.id).map Endpoint.forces

namespace Assembly

variable {l : List Patch} {p new : Patch}

theorem map_id_putPatch (hid : new.id = p.id) :
    (putPatch l (fun q => q) p new).map Patch.id = l.map Patch.id := by
  rw [putPatch, List.map_map]
  refine List.map_congr_left fun q _ => ?_
  by_cases hsame : q.id = p.id
  · rw [Function.comp, if_pos hsame, hid, hsame]
  · rw [Function.comp, if_neg hsame]

/-- The patches with one of them replaced are the new one and the others. -/
theorem mem_putPatch {q : Patch} (hq : q ∈ putPatch l (fun q => q) p new) :
    q = new ∨ q ∈ l ∧ q.id ≠ p.id := by
  obtain ⟨r, hr, rfl⟩ := List.mem_map.mp hq
  by_cases hsame : r.id = p.id
  · exact .inl (if_pos hsame)
  · rw [if_neg hsame]
    exact .inr ⟨hr, hsame⟩

/-- What some patch has, some patch has afterwards, if the new one has what the old one had. -/
theorem exists_putPatch {has : Patch → Prop} (hnodup : (l.map Patch.id).Nodup) (hp : p ∈ l)
    (hsome : ∃ q ∈ l, has q) (hnew : has p → has new) :
    ∃ q ∈ putPatch l (fun q => q) p new, has q := by
  obtain ⟨q, hq, hhas⟩ := hsome
  refine ⟨_, List.mem_map_of_mem hq, ?_⟩
  by_cases hsame : q.id = p.id
  · obtain rfl := List.inj_on_of_nodup_map hnodup hq hp hsame
    rw [if_pos rfl]
    exact hnew hhas
  · rw [if_neg hsame]
    exact hhas

theorem new_mem_putPatch (hp : p ∈ l) : new ∈ putPatch l (fun q => q) p new :=
  List.mem_map.mpr ⟨p, hp, if_pos rfl⟩

end Assembly

namespace Enrolled

variable {ids : List PatchId} {held : List Endpoint} {s s' : Assembly} {patch : PatchId}
  {absent : Failure} {task : ComputeId} {h : Handle}

theorem nodup {patches : List Patch} (h : Enrolled ids held patches) :
    (patches.map Patch.id).Nodup := h.named ▸ h.distinct

/-- One of the patches replaced by another one at rest that knows of the same handles on forces and
of no fewer handles on positions. -/
theorem put {patches : List Patch} (h : Enrolled ids held patches) {p new : Patch}
    (hp : p ∈ patches) (hid : new.id = p.id) (hrest : new.AtRest)
    (hpositions : ∀ g ∈ p.positionBox.handles, g ∈ new.positionBox.handles)
    (hforces : new.forceBox.handles = p.forceBox.handles) :
    Enrolled ids held (Assembly.putPatch patches (fun q => q) p new) where
  named := (Assembly.map_id_putPatch hid).trans h.named
  distinct := h.distinct
  resting := by
    intro q hq
    rcases Assembly.mem_putPatch hq with rfl | ⟨hq, -⟩
    · exact hrest
    · exact h.resting q hq
  present := by
    intro e he
    refine Assembly.exists_putPatch h.nodup hp (h.present e he) ?_
    rintro ⟨hsame, hmem⟩
    exact ⟨hid.trans hsame, hpositions _ hmem⟩
  handles := by
    intro q hq
    rcases Assembly.mem_putPatch hq with rfl | ⟨hq, -⟩
    · rw [hforces, hid, h.handles p hp]
    · exact h.handles q hq

/-- A registration on the positions of a patch. -/
theorem register_position (hs : Enrolled ids held s.patches)
    (hcall : Assembly.onPatch patch absent (fun p => p.register .position task) s = (.ok h, s')) :
    Enrolled ids held s'.patches ∧ ∃ p ∈ s'.patches, p.id = patch ∧ h ∈ p.positionBox.handles := by
  obtain ⟨p, hp, rfl, hok, rfl⟩ := Assembly.onPatch_ok hs.nodup hcall
  have hrest := (hs.resting p hp).register_position hok
  obtain ⟨hok, hnew⟩ := Patch.register_position_ok hok
  have hhandles := Box.handles_register hok
  rw [hnew] at hrest ⊢
  refine ⟨hs.put hp rfl hrest ?_ rfl, _, Assembly.new_mem_putPatch hp, rfl, ?_⟩
  · intro g hg
    rw [hhandles]
    exact List.mem_append_left _ hg
  · rw [hhandles]
    exact List.mem_append_right _ List.mem_cons_self

/-- A registration on the forces of a patch, by a task that has a handle on its positions. -/
theorem register_force (hs : Enrolled ids held s.patches) {positions : Handle}
    (hpositions : ∃ p ∈ s.patches, p.id = patch ∧ positions ∈ p.positionBox.handles)
    (hcall : Assembly.onPatch patch absent (fun p => p.register .force task) s = (.ok h, s')) :
    Enrolled ids (held ++ [⟨patch, positions, h⟩]) s'.patches := by
  obtain ⟨p, hp, rfl, hok, rfl⟩ := Assembly.onPatch_ok hs.nodup hcall
  have hrest := (hs.resting p hp).register_force hok
  obtain ⟨hok, hnew⟩ := Patch.register_force_ok hok
  have hhandles := Box.handles_register hok
  have hid := congrArg Patch.id hnew
  rw [hnew] at hrest hid ⊢
  refine ⟨(Assembly.map_id_putPatch hid).trans hs.named, hs.distinct, ?_, ?_, ?_⟩
  · intro q hq
    rcases Assembly.mem_putPatch hq with rfl | ⟨hq, -⟩
    · exact hrest
    · exact hs.resting q hq
  · intro e he
    refine Assembly.exists_putPatch hs.nodup hp ?_ id
    rcases List.mem_append.mp he with he | he
    · exact hs.present e he
    · rw [List.mem_singleton.mp he]
      exact hpositions
  · intro q hq
    -- only the patch itself gets a handle more, as the last one
    rw [List.filter_append, List.map_append]
    rcases Assembly.mem_putPatch hq with rfl | ⟨hq, hother⟩
    · rw [hhandles, hs.handles p hp, List.filter_cons_of_pos (by simp)]
      rfl
    · rw [hs.handles q hq, List.filter_cons_of_neg (by simpa using Ne.symm hother)]
      exact (List.append_nil _).symm

/-- A registration with one patch. -/
theorem registerEndpoint (hs : Enrolled ids held s.patches) {e : Endpoint}
    (hcall : ForceTask.registerEndpoint task patch s = (.ok e, s')) :
    Enrolled ids (held ++ [e]) s'.patches := by
  obtain ⟨positions, s₁, hposition, hcall⟩ := ok_of_bind hcall
  obtain ⟨forces, s₂, hforce, hcall⟩ := ok_of_bind hcall
  cases hcall
  obtain ⟨hs₁, hpresent⟩ := hs.register_position hposition
  exact hs₁.register_force hpresent hforce

/-- A registration with some patches. -/
theorem registerEndpoints {patches : List PatchId} (hs : Enrolled ids held s.patches)
    {endpoints : List Endpoint}
    (hcall : patches.mapM (ForceTask.registerEndpoint task) s = (.ok endpoints, s')) :
    Enrolled ids (held ++ endpoints) s'.patches ∧ endpoints.length = patches.length := by
  induction patches generalizing held s endpoints with
  | nil =>
    rw [List.mapM_nil] at hcall
    cases hcall
    rw [List.append_nil]
    exact ⟨hs, rfl⟩
  | cons patch patches ih =>
    rw [List.mapM_cons] at hcall
    obtain ⟨e, s₁, hfirst, hcall⟩ := ok_of_bind hcall
    obtain ⟨rest, s₂, hrest, hcall⟩ := ok_of_bind hcall
    cases hcall
    obtain ⟨hs', hlength⟩ := ih (hs.registerEndpoint hfirst) hrest
    rw [List.append_cons, List.length_cons, hlength]
    exact ⟨hs', rfl⟩

/-- **A registration of tasks**, one after the other. -/
theorem registerAll {specs : List Task} {tasks : List ForceTask} (hs : Enrolled ids held s.patches)
    (hcall : specs.mapM ForceTask.register s = (.ok tasks, s')) :
    Enrolled ids (held ++ tasks.flatMap ForceTask.endpoints) s'.patches ∧
      tasks.map ForceTask.id = specs.map Task.id ∧
      tasks.map (fun t => t.endpoints.length) = specs.map fun t => t.patches.length := by
  induction specs generalizing held s tasks with
  | nil =>
    rw [List.mapM_nil] at hcall
    cases hcall
    rw [List.flatMap_nil, List.append_nil]
    exact ⟨hs, rfl, rfl⟩
  | cons spec specs ih =>
    rw [List.mapM_cons] at hcall
    obtain ⟨t, s₁, hfirst, hcall⟩ := ok_of_bind hcall
    obtain ⟨rest, s₂, hrest, hcall⟩ := ok_of_bind hcall
    cases hcall
    obtain ⟨endpoints, s₃, hendpoints, hfirst⟩ := ok_of_bind hfirst
    cases hfirst
    obtain ⟨hs₁, hlength⟩ := hs.registerEndpoints hendpoints
    obtain ⟨hs', hids, hlengths⟩ := ih hs₁ hrest
    rw [List.flatMap_cons, ← List.append_assoc]
    refine ⟨hs', congrArg (spec.id :: ·) hids, ?_⟩
    rw [List.map_cons, List.map_cons, hlengths, hlength]

end Enrolled

end PatchDynamics
