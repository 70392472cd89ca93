import PatchDynamics.ForceTask
import PatchDynamics.Proofs.Assembly.Calls

/-!
# Tasks, call by call

The run of a force task is a row of calls on boxes: it retrieves the positions of all its patches
and then deposits forces on them. Other tasks may get in between any two of these calls. This file
cuts a run at its calls:

* `Worker` — a task in a step between two calls, with what it has read and what it has still to do;
* `Worker.move` — the next call;
* `run_eq_finish`, `finish_eq_move` — a run is its moves, one after the other.
-/

namespace PatchDynamics

/-- A call that a task makes on a box in the course of a step. -/
inductive Move where
  /-- retrieves positions -/
  | retrieve (e : Endpoint)
  /-- deposits forces -/
  | deposit (e : Endpoint) (d : ForceDeposit)

/-- A force task in a step, between two of its calls. -/
inductive Worker where
  /-- some positions are read, and those at `next` and then `ahead` are to be read -/
  | reading (task : ForceTask) (positions : List (List Vec3)) (next : Endpoint)
    (ahead : List Endpoint)
  /-- the forces are evaluated, and those listed are to be deposited -/
  | writing (ahead : List (Endpoint × List Vec3)) (counts : PairCounts)

namespace Worker

variable (law : ForceLaw) (grid : Grid)

/-- The task before its first call. One without patches has nothing to do. -/
def start (t : ForceTask) : Worker :=
  match t.endpoints with
  | [] => .writing [] ⟨0, 0⟩
  | e :: rest => .reading t [] e rest

/-- The task after some positions have been read: the next are to be read, or the forces to be
evaluated. -/
def proceed (t : ForceTask) (positions : List (List Vec3)) :
    List Endpoint → Except Failure Worker
  | next :: ahead => .ok (.reading t positions next ahead)
  | [] => (ForceTask.evaluate law grid positions).map fun (forces, counts) =>
    .writing (t.endpoints.zip forces) counts

/-- The next call of the task, if there is one. -/
def next? : Worker → Option Move
  | .reading _ _ next _ => some (.retrieve next)
  | .writing ((e, forces) :: _) _ => some (.deposit e ⟨law.channel, forces⟩)
  | .writing [] _ => none

/-- Makes the next call. -/
def move : Worker → Action Assembly Worker
  | .reading t positions next ahead => do
    let more ← ForceTask.retrieve next
    ForceTask.run.liftExcept (proceed law grid t (positions ++ [more]) ahead)
  | .writing ((e, forces) :: ahead) counts => do
    ForceTask.deposit law.channel e forces
    return .writing ahead counts
  | .writing [] counts => return .writing [] counts

/-- All that is left of the run. -/
def finish : Worker → Action Assembly PairCounts
  | .reading t positions next ahead => do
    let more ← (next :: ahead).mapM ForceTask.retrieve
    let (forces, counts) ← ForceTask.run.liftExcept
      (ForceTask.evaluate law grid (positions ++ more))
    (t.endpoints.zip forces).forM fun (e, list) => ForceTask.deposit law.channel e list
    return counts
  | .writing ahead counts => do
    ahead.forM fun (e, list) => ForceTask.deposit law.channel e list
    return counts

/-- A run is all that is left before its first call. -/
theorem run_eq_finish {t : ForceTask} (hsome : t.endpoints ≠ []) :
    t.run law grid = (start t).finish law grid := by
  obtain ⟨e, rest, hendpoints⟩ := List.exists_cons_of_ne_nil hsome
  rw [start, ForceTask.run, hendpoints]
  dsimp only [finish]
  rw [hendpoints]
  rfl

/-- Once all positions have been read, what is left is to evaluate and to deposit. -/
theorem proceed_nil_finish (t : ForceTask) (positions : List (List Vec3)) :
    (do let w ← ForceTask.run.liftExcept (proceed law grid t positions [])
        finish law grid w : Action Assembly PairCounts) = (do
      let (forces, counts) ← ForceTask.run.liftExcept (ForceTask.evaluate law grid positions)
      (t.endpoints.zip forces).forM fun (e, list) => ForceTask.deposit law.channel e list
      return counts) := by
  rw [proceed]
  cases ForceTask.evaluate law grid positions <;> rfl

/-- **What is left of a run** is the next call and then what is left after it. -/
theorem finish_eq_move (w : Worker) :
    w.finish law grid = (do
      let w ← w.move law grid
      w.finish law grid) := by
  cases w with
  | reading t positions next ahead =>
    rw [finish, move, List.mapM_cons, bind_assoc, bind_assoc]
    -- after a retrieval comes the next one, or the evaluation
    refine congrArg _ (funext fun more => ?_)
    cases ahead with
    | nil =>
      rw [proceed_nil_finish]
      rfl
    | cons e rest =>
      change _ = finish law grid (.reading t (positions ++ [more]) e rest)
      rw [finish, bind_assoc]
      refine congrArg _ (funext fun others => ?_)
      rw [pure_bind, List.append_cons]
  | writing ahead counts =>
    cases ahead with
    | nil => rfl
    | cons head ahead =>
      rw [finish, move, List.forM_eq_forM, List.forM_cons, bind_assoc, bind_assoc]
      rfl

end Worker

/-! ## The size of forces -/

namespace Tally

@[simp] theorem size_zeros (n m : Nat) :
    (zeros n m).first.size = n ∧ (zeros n m).second.size = m := by
  simp [zeros]

theorem size_within (t : Tally) (i j : Nat) (f : Vec3) :
    (t.within i j f).first.size = t.first.size := by
  rw [within]
  split <;> simp

theorem size_between (t : Tally) (i j : Nat) (f : Vec3) :
    (t.between i j f).first.size = t.first.size ∧
      (t.between i j f).second.size = t.second.size := by
  rw [between]
  split <;> simp

end Tally

namespace ForceTask

variable (law : ForceLaw) (grid : Grid)

theorem size_withRest (i : Nat) (a : Vec3) (j : Nat) (rest : List Vec3) (t : Tally) :
    (withRest law grid i a j rest t).first.size = t.first.size := by
  induction rest generalizing j t with
  | nil => rfl
  | cons b rest ih => rw [withRest, ih, Tally.size_within]

theorem size_pairsWithin (i : Nat) (list : List Vec3) (t : Tally) :
    (pairsWithin law grid i list t).first.size = t.first.size := by
  induction list generalizing i t with
  | nil => rfl
  | cons a rest ih => rw [pairsWithin, ih, size_withRest]

theorem size_withOthers (i : Nat) (a : Vec3) (j : Nat) (others : List Vec3) (t : Tally) :
    (withOthers law grid i a j others t).first.size = t.first.size ∧
      (withOthers law grid i a j others t).second.size = t.second.size := by
  induction others generalizing j t with
  | nil => exact ⟨rfl, rfl⟩
  | cons b rest ih =>
    obtain ⟨hfirst, hsecond⟩ := t.size_between i j (forceBetween law grid a b)
    rw [withOthers, (ih _ _).1, (ih _ _).2, hfirst, hsecond]
    exact ⟨rfl, rfl⟩

theorem size_pairsBetween (others : List Vec3) (i : Nat) (list : List Vec3) (t : Tally) :
    (pairsBetween law grid others i list t).first.size = t.first.size ∧
      (pairsBetween law grid others i list t).second.size = t.second.size := by
  induction list generalizing i t with
  | nil => exact ⟨rfl, rfl⟩
  | cons a rest ih =>
    obtain ⟨hfirst, hsecond⟩ := size_withOthers law grid i a 0 others t
    rw [pairsBetween, (ih _ _).1, (ih _ _).2, hfirst, hsecond]
    exact ⟨rfl, rfl⟩

/-- **Forces fit the positions**: some list of positions can be evaluated, and then there is one
force for each atom of each list. -/
theorem evaluate_fits {positions : List (List Vec3)} (hsome : positions ≠ []) :
    ∃ forces counts, evaluate law grid positions = .ok (forces, counts) ∧
      forces.map List.length = positions.map List.length := by
  match positions with
  | [] => exact absurd rfl hsome
  | [only] =>
    refine ⟨_, _, rfl, ?_⟩
    simp [size_pairsWithin]
  | first :: second :: others =>
    have hsize := size_pairsBetween law grid second 0 first (Tally.zeros first.length second.length)
    refine ⟨_, _, rfl, ?_⟩
    simp [hsize.1, hsize.2]

end ForceTask

/-! ## What is left to do -/

/-- An action that goes on after another has succeeded. -/
theorem bind_of_ok {σ α β : Type} {m : Action σ α} {s s' : σ} {a : α} (h : m s = (.ok a, s'))
    (f : α → Action σ β) : (m >>= f) s = f a s' := by
  have hbind : (m >>= f) s = ExceptT.bindCont f (m s).1 (m s).2 := rfl
  rw [hbind, h]
  rfl

/-- An action whose first part fails ends there. -/
theorem bind_of_error {σ α β : Type} {m : Action σ α} {s s' : σ} {e : Failure}
    (h : m s = (.error e, s')) (f : α → Action σ β) : (m >>= f) s = (.error e, s') := by
  have hbind : (m >>= f) s = ExceptT.bindCont f (m s).1 (m s).2 := rfl
  rw [hbind, h]
  rfl

/-- An action leaves alone what both of its parts leave alone. -/
theorem keeps_bind {σ α β γ : Type} (part : σ → γ) {m : Action σ α} {f : α → Action σ β}
    (hm : ∀ s, part (m s).2 = part s) (hf : ∀ a s, part (f a s).2 = part s) (s : σ) :
    part ((m >>= f) s).2 = part s := by
  have hbind : (m >>= f) s = ExceptT.bindCont f (m s).1 (m s).2 := rfl
  rw [hbind, ← hm s]
  cases (m s).1 with
  | ok a => exact hf a (m s).2
  | error e => rfl

/-- An action that succeeds has succeeded in its first part, and then in the rest. -/
theorem ok_of_bind {σ α β : Type} {m : Action σ α} {f : α → Action σ β} {s s' : σ} {b : β}
    (h : (m >>= f) s = (.ok b, s')) : ∃ a s₁, m s = (.ok a, s₁) ∧ f a s₁ = (.ok b, s') := by
  have hbind : (m >>= f) s = ExceptT.bindCont f (m s).1 (m s).2 := rfl
  rw [hbind] at h
  rcases hm : m s with ⟨_ | a, s₁⟩
  · rw [hm] at h
    cases h
  · rw [hm] at h
    exact ⟨a, s₁, rfl, h⟩

variable (law : ForceLaw) (grid : Grid) (positions : Endpoint → List Vec3)

/-- The deposits of some forces. -/
def Move.deposits (forces : List (Endpoint × List Vec3)) : List Move :=
  forces.map fun (e, list) => .deposit e ⟨law.channel, list⟩

/-- The forces that a task finds at given positions, by its patches. -/
def ForceTask.forces (t : ForceTask) : List (Endpoint × List Vec3) :=
  match ForceTask.evaluate law grid (t.endpoints.map positions) with
  | .ok (forces, _) => t.endpoints.zip forces
  | .error _ => []

/-- The counts of the pairs that a task finds at given positions. -/
def ForceTask.counts (t : ForceTask) : PairCounts :=
  match ForceTask.evaluate law grid (t.endpoints.map positions) with
  | .ok (_, counts) => counts
  | .error _ => ⟨0, 0⟩

/-- All the calls of a task at given positions: retrievals, and then deposits. -/
def ForceTask.script (t : ForceTask) : List Move :=
  t.endpoints.map .retrieve ++ Move.deposits law (t.forces law grid positions)

/-- A call that goes well, where the positions to be read are given. -/
def Move.Succeeds (m : Move) (s s' : Assembly) : Prop :=
  match m with
  | .retrieve e => ForceTask.retrieve e s = (.ok (positions e), s')
  | .deposit e d => ForceTask.deposit d.channel e d.forces s = (.ok (), s')

namespace Worker

/-- The calls that a task has still to make, where the positions to be read are given. -/
inductive Follows (t : ForceTask) : Worker → List Move → Prop where
  /-- retrievals and deposits -/
  | reading {read : List Endpoint} {next : Endpoint} {ahead : List Endpoint}
    (split : t.endpoints = read ++ next :: ahead) :
    Follows t (.reading t (read.map positions) next ahead)
      ((next :: ahead).map .retrieve ++ Move.deposits law (t.forces law grid positions))
  /-- deposits -/
  | writing {ahead : List (Endpoint × List Vec3)} :
    Follows t (.writing ahead (t.counts law grid positions)) (Move.deposits law ahead)

variable {law grid positions} {t : ForceTask}

theorem follows_start (hsome : t.endpoints ≠ []) :
    Follows law grid positions t (start t) (t.script law grid positions) := by
  obtain ⟨e, rest, hendpoints⟩ := List.exists_cons_of_ne_nil hsome
  have hreading : Follows law grid positions t (.reading t ([].map positions) e rest)
      ((e :: rest).map .retrieve ++ Move.deposits law (t.forces law grid positions)) :=
    .reading hendpoints
  rw [start, ForceTask.script, hendpoints]
  exact hreading

variable (law grid positions) in
/-- A task that has read some positions proceeds to the next retrieval, or to its deposits. -/
theorem proceed_follows {read ahead : List Endpoint} (split : t.endpoints = read ++ ahead)
    (hsome : read ≠ []) :
    ∃ w, proceed law grid t (read.map positions) ahead = .ok w ∧
      Follows law grid positions t w
        (ahead.map .retrieve ++ Move.deposits law (t.forces law grid positions)) := by
  cases ahead with
  | cons next ahead => exact ⟨_, rfl, .reading split⟩
  | nil =>
    rw [List.append_nil] at split
    obtain ⟨forces, counts, heval, -⟩ :=
      ForceTask.evaluate_fits law grid (mt List.map_eq_nil_iff.mp hsome : read.map positions ≠ [])
    refine ⟨.writing (t.endpoints.zip forces) counts, by rw [proceed, heval]; rfl, ?_⟩
    have hcounts : t.counts law grid positions = counts := by
      rw [ForceTask.counts, split, heval]
    rw [ForceTask.forces, split, heval, ← hcounts]
    exact .writing

/-- **A move** makes the first of the calls that are left, and leaves the others. -/
theorem Follows.move {w : Worker} {m : Move} {rest : List Move}
    (h : Follows law grid positions t w (m :: rest)) :
    w.next? law = some m ∧ ∃ w', Follows law grid positions t w' rest ∧
      ∀ s s', m.Succeeds positions s s' → w.move law grid s = (.ok w', s') := by
  generalize hmoves : m :: rest = moves at h
  cases h with
  | @reading read next ahead split =>
    -- the task reads on, with what it has read so far
    obtain ⟨rfl, rfl⟩ := List.cons.inj hmoves
    have hsome : read ++ [next] ≠ [] := List.append_ne_nil_of_right_ne_nil _ (List.cons_ne_nil _ _)
    obtain ⟨w, hproceed, hfollows⟩ := proceed_follows law grid positions
      (split.trans (List.append_cons ..)) hsome
    refine ⟨rfl, w, hfollows, fun s s' hsucceeds => ?_⟩
    have hbind := bind_of_ok hsucceeds fun more =>
      ForceTask.run.liftExcept (proceed law grid t (read.map positions ++ [more]) ahead)
    rw [List.map_append, List.map_singleton] at hproceed
    rw [hproceed] at hbind
    exact hbind
  | @writing ahead =>
    cases ahead with
    | nil => cases hmoves
    | cons head ahead =>
      obtain ⟨rfl, rfl⟩ := List.cons.inj hmoves
      refine ⟨rfl, .writing ahead (t.counts law grid positions), .writing, fun s s' hsucceeds => ?_⟩
      exact bind_of_ok hsucceeds fun _ =>
        return Worker.writing ahead (t.counts law grid positions)

/-- A task that has a retrieval to make has all its deposits to make. -/
theorem Follows.deposits_later {w : Worker} {e : Endpoint} {rest : List Move}
    (h : Follows law grid positions t w (.retrieve e :: rest)) :
    e ∈ t.endpoints ∧ ∀ m ∈ Move.deposits law (t.forces law grid positions), m ∈ rest := by
  generalize hmoves : Move.retrieve e :: rest = moves at h
  cases h with
  | @reading read next ahead split =>
    obtain ⟨hnext, rfl⟩ := List.cons.inj hmoves
    obtain rfl := Move.retrieve.inj hnext
    refine ⟨?_, fun m hm => List.mem_append_right _ hm⟩
    rw [split]
    exact List.mem_append_right _ List.mem_cons_self
  | @writing ahead =>
    cases ahead with
    | nil => cases hmoves
    | cons head ahead => cases (List.cons.inj hmoves).1

/-- A task that has nothing left to do is finished, with its pairs counted. -/
theorem Follows.finished {w : Worker} (h : Follows law grid positions t w []) :
    w = .writing [] (t.counts law grid positions) := by
  generalize hmoves : ([] : List Move) = moves at h
  cases h with
  | reading split => cases hmoves
  | @writing ahead =>
    obtain rfl := List.map_eq_nil_iff.mp hmoves.symm
    rfl

end Worker

/-- A move leaves all but the patches and the signals of the assembly alone. -/
theorem Worker.frame_move (w : Worker) (s : Assembly) : (w.move law grid s).2.frame = s.frame := by
  cases w with
  | reading t positions next ahead =>
    refine keeps_bind Assembly.frame (fun s => ?_) (fun more s => ?_) s
    · exact keeps_bind Assembly.frame (Assembly.frame_onPatch _ _ _) (fun _ _ => rfl) s
    · cases proceed law grid t (positions ++ [more]) ahead <;> rfl
  | writing ahead counts =>
    cases ahead with
    | nil => rfl
    | cons head ahead =>
      exact keeps_bind Assembly.frame (Assembly.frame_onPatch _ _ _) (fun _ _ => rfl) s

namespace ForceTask

variable {law grid positions} {t : ForceTask}

/-- A task deposits on each of its patches, in order. -/
theorem map_fst_forces (law : ForceLaw) (grid : Grid) (positions : Endpoint → List Vec3)
    (hsome : t.endpoints ≠ []) :
    (t.forces law grid positions).map Prod.fst = t.endpoints := by
  obtain ⟨forces, counts, heval, hsizes⟩ := evaluate_fits law grid
    (mt List.map_eq_nil_iff.mp hsome : t.endpoints.map positions ≠ [])
  rw [ForceTask.forces, heval]
  have hlength := congrArg List.length hsizes
  simp only [List.length_map] at hlength
  exact List.map_fst_zip (Nat.le_of_eq hlength.symm)

/-- Lists that are paired with places keep the sizes of the places. -/
theorem length_of_mem_zip {places : List Endpoint} {lists : List (List Vec3)} {e : Endpoint}
    {list : List Vec3} (hsizes : lists.map List.length = places.map (List.length ∘ positions))
    (hmem : (e, list) ∈ places.zip lists) : list.length = (positions e).length := by
  induction places generalizing lists with
  | nil => cases hmem
  | cons place places ih =>
    cases lists with
    | nil => cases hmem
    | cons first lists =>
      obtain ⟨hfirst, hrest⟩ := List.cons.inj hsizes
      rcases List.mem_cons.mp hmem with heq | hmem
      · cases heq
        exact hfirst
      · exact ih hrest hmem

/-- A deposit of a task is on one of its patches, one force for each of the positions there. -/
theorem deposit_mem_script (hsome : t.endpoints ≠ []) {e : Endpoint} {d : ForceDeposit}
    (hm : .deposit e d ∈ t.script law grid positions) :
    e ∈ t.endpoints ∧ d.forces.length = (positions e).length := by
  rcases List.mem_append.mp hm with hm | hm
  · obtain ⟨_, -, heq⟩ := List.mem_map.mp hm
    cases heq
  · obtain ⟨⟨e', list⟩, hmem, heq⟩ := List.mem_map.mp hm
    obtain ⟨rfl, rfl⟩ := Move.deposit.inj heq
    refine ⟨?_, ?_⟩
    · rw [← map_fst_forces law grid positions hsome]
      exact List.mem_map_of_mem hmem
    · obtain ⟨forces, counts, heval, hsizes⟩ := evaluate_fits law grid
        (mt List.map_eq_nil_iff.mp hsome : t.endpoints.map positions ≠ [])
      rw [ForceTask.forces, heval] at hmem
      rw [List.map_map] at hsizes
      exact length_of_mem_zip hsizes hmem

end ForceTask

end PatchDynamics
