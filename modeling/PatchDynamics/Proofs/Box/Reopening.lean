import Mathlib.Data.List.Range
import PatchDynamics.Box.Attended
import PatchDynamics.Proofs.Box.Calls

/-!
# Owners that reopen

An owner hears of a completion while the call that closed the cycle is still running, and it may
open the next cycle there and then, as often as it likes. A cycle that waits for nobody completes at
once, and the owner hears of that completion before its opening returns. Three layers:

* `Reaction` — what an owner does while it hears of a completion, as a program whose only effect is
  to open the box; `react` runs it;
* `Moment` — what is seen of a run: openings, what they return, and completions, each with where the
  box stands then; an opening and its return may have others in between;
* `Numbered` — the invariant: the number of completions heard so far, and whether a cycle is under
  way, tell where the box stands and what an opening returns.

A run comes to some calls made one after the other, `callsMade`, and what is seen of these is its
`record`.

The main statement is `cycles_in_order`. `hear_eq_react` says that standing orders to reopen are one
such reaction.
-/

namespace PatchDynamics

namespace Box

variable {P D : Type}

/-! ## Reactions -/

/-- What an owner does while it hears of a completion. -/
inductive Reaction (P D : Type) where
  /-- it returns -/
  | rest
  /-- it opens the next cycle. If that cycle completes at once, it hears of the completion first,
  and `inner` is what it does then; `next` is how it goes on with what the opening returned -/
  | reopen (payload : P) (inner : Completion D → Reaction P D)
    (next : Except Refusal Nat → Reaction P D)

/-- What is seen of a run. -/
inductive Moment (D : Type) where
  /-- somebody opens the box, which stands there -/
  | opening (phase : Phase) (cycle : Nat)
  /-- the latest opening that has not returned returns, and leaves the box there -/
  | opened (outcome : Except Refusal Nat) (phase : Phase) (cycle : Nat)
  /-- the owner begins to hear of a completion, and finds the box there -/
  | heard (c : Completion D) (phase : Phase) (cycle : Nat)

/-- The owner hears of what a call completed, if it completed a cycle, and answers it. -/
def heed {α : Type} (answer : Completion D → Box P D → List (Moment D) × Box P D)
    (reply : Reply P D α) : List (Moment D) × Box P D :=
  match reply.completion with
  | none => ([], reply.box)
  | some c =>
    (.heard c reply.box.phase reply.box.cycle :: (answer c reply.box).1, (answer c reply.box).2)

/-- Runs a reaction: what is seen of it, and the box afterwards. -/
def react : Reaction P D → Box P D → List (Moment D) × Box P D
  | .rest, b => ([], b)
  | .reopen payload inner next, b =>
    let reply := b.publish payload
    let during := heed (fun c => react (inner c)) reply
    let later := react (next reply.outcome) during.2
    (.opening b.phase b.cycle ::
      (during.1 ++ .opened reply.outcome during.2.phase during.2.cycle :: later.1), later.2)

/-- A call from outside, and how the owner reacts to completions while it runs. -/
structure Turn (P D : Type) where
  /-- the call -/
  call : Call P D
  /-- the reaction to a completion -/
  owner : Completion D → Reaction P D

/-- Makes a call and lets the owner react. An opening from outside is like one of the owner's. -/
def turn (b : Box P D) (t : Turn P D) : List (Moment D) × Box P D :=
  match t.call with
  | .publish payload => react (.reopen payload t.owner fun _ => .rest) b
  | c => heed (fun c => react (t.owner c)) (b.perform c)

/-- The box after some calls and the reactions to them. -/
def afterTurns (b : Box P D) (turns : List (Turn P D)) : Box P D :=
  turns.foldl (fun b t => (b.turn t).2) b

/-- What is seen of some calls and the reactions to them. -/
def moments (b : Box P D) (turns : List (Turn P D)) : List (Moment D) :=
  (trace (fun b t => (b.turn t).2) (fun b t => (b.turn t).1) b turns).flatten

/-! ## Reading what is seen -/

/-- The completions that were heard, in order. -/
def completions (ms : List (Moment D)) : List (Completion D) :=
  ms.filterMap fun
    | .heard c _ _ => some c
    | _ => none

/-- What an opening returns, given what is seen after it: openings that begin later return earlier,
and `depth` tells how many of them have not returned. -/
def returned : Nat → List (Moment D) → Option (Except Refusal Nat)
  | _, [] => none
  | depth, .opening _ _ :: ms => returned (depth + 1) ms
  | 0, .opened outcome _ _ :: _ => some outcome
  | depth + 1, .opened _ _ _ :: ms => returned depth ms
  | depth, .heard _ _ _ :: ms => returned depth ms

/-- The numbers that openings answer, in the order in which these began. -/
def cyclesStarted : List (Moment D) → List Nat
  | [] => []
  | .opening _ _ :: ms =>
    match returned 0 ms with
    | some (.ok n) => n :: cyclesStarted ms
    | _ => cyclesStarted ms
  | .opened _ _ _ :: ms => cyclesStarted ms
  | .heard _ _ _ :: ms => cyclesStarted ms

/-- What is seen first once cycle `n` was started: its completion, of which the owner hears while
the opening still runs, or else the return of the opening, with that number and with the box
open. -/
def Starts (n : Nat) : List (Moment D) → Prop
  | .heard c phase cycle :: _ => c.cycle = n ∧ phase = .idle ∧ cycle = n
  | .opened outcome phase cycle :: _ => outcome = .ok n ∧ phase = .opened ∧ cycle = n
  | _ => False

theorem completions_heard (c : Completion D) (phase : Phase) (cycle : Nat)
    (ms : List (Moment D)) : completions (.heard c phase cycle :: ms) = c :: completions ms := rfl

/-- What has returned stays so. -/
theorem returned_append {depth : Nat} {ms : List (Moment D)} {outcome : Except Refusal Nat}
    (h : returned depth ms = some outcome) (more : List (Moment D)) :
    returned depth (ms ++ more) = some outcome := by
  fun_induction returned depth ms with
  | case1 => cases h
  | case2 depth _ _ ms ih => exact ih h
  | case3 => exact h
  | case4 depth _ _ _ ms ih => exact ih h
  | case5 depth _ _ _ ms ih => cases depth <;> exact ih h

theorem Starts.append {n : Nat} {ms : List (Moment D)} (h : Starts n ms) (more : List (Moment D)) :
    Starts n (ms ++ more) := by
  cases ms with
  | nil => cases h
  | cons m ms => cases m <;> exact h

/-- All openings among some moments have returned. -/
def Balanced (ms : List (Moment D)) : Prop :=
  ∀ depth rest, returned depth (ms ++ rest) = returned depth rest

theorem balanced_nil : Balanced ([] : List (Moment D)) := fun _ _ => rfl

theorem Balanced.append {ms more : List (Moment D)} (h : Balanced ms) (hmore : Balanced more) :
    Balanced (ms ++ more) := by
  intro depth rest
  rw [List.append_assoc, h, hmore]

theorem Balanced.heard {ms : List (Moment D)} (h : Balanced ms) (c : Completion D) (phase : Phase)
    (cycle : Nat) : Balanced (.heard c phase cycle :: ms) := by
  intro depth rest
  cases depth <;> exact h _ rest

theorem Balanced.opening {ms : List (Moment D)} (h : Balanced ms) (phase phase' : Phase)
    (cycle cycle' : Nat) (outcome : Except Refusal Nat) :
    Balanced (.opening phase cycle :: (ms ++ [.opened outcome phase' cycle'])) := by
  intro depth rest
  rw [List.cons_append, returned, List.append_assoc, h]
  rfl

/-! ## The stages of a box -/

/-- How far a box has come: how many completions were heard, and whether a cycle is under way. -/
structure Stage where
  /-- the completions heard so far -/
  heard : Nat
  /-- whether a cycle is under way -/
  busy : Bool

namespace Stage

/-- The phase of a box at a stage. -/
def phase (s : Stage) : Phase := if s.busy then .opened else .idle

/-- The cycle counter of a box at a stage. -/
def cycle (s : Stage) : Nat := if s.busy then s.heard + 1 else s.heard

/-- The stage after a moment. After an opening a cycle is under way, whether or not it is a new
one. -/
def next (s : Stage) : Moment D → Stage
  | .opening _ _ => { s with busy := true }
  | .opened _ _ _ => s
  | .heard _ _ _ => ⟨s.heard + 1, false⟩

/-- What is seen at a stage, given what is seen later. -/
def Allows (s : Stage) : Moment D → List (Moment D) → Prop
  | .opening phase cycle, later =>
    phase = s.phase ∧ cycle = s.cycle ∧
      if s.busy then ∃ r, later.head? = some (.opened (.error r) s.phase s.cycle)
      else returned 0 later = some (.ok (s.heard + 1)) ∧ Starts (s.heard + 1) later
  | .opened _ phase cycle, _ => phase = s.phase ∧ cycle = s.cycle
  | .heard c phase cycle, _ =>
    s.busy = true ∧ c.cycle = s.heard + 1 ∧ phase = .idle ∧ cycle = s.heard + 1

/-- The stage after some moments. -/
def after (s : Stage) (ms : List (Moment D)) : Stage := ms.foldl next s

end Stage

/-- Everything that is seen from a stage on is as the stages tell. -/
def Numbered : Stage → List (Moment D) → Prop
  | _, [] => True
  | s, m :: later => s.Allows m later ∧ Numbered (s.next m) later

/-- The box stands as the stage tells. -/
structure At (b : Box P D) (s : Stage) : Prop where
  /-- its phase -/
  phase : b.phase = s.phase
  /-- its cycle counter -/
  cycle : b.cycle = s.cycle

variable {b : Box P D} {s : Stage} {ms more : List (Moment D)}

theorem at_new (serial : Nat) (label : BoxLabel) (mode : BoxMode) :
    (new serial label mode : Box P D).At ⟨0, false⟩ := ⟨rfl, rfl⟩

/-- Where a box stands tells its stage. -/
theorem At.of_standing {b' : Box P D} (h : b.At s) (hs : b'.standing = b.standing) : b'.At s :=
  ⟨(congrArg Standing.phase hs).trans h.phase, (congrArg Standing.cycle hs).trans h.cycle⟩

theorem Stage.after_append (s : Stage) (ms more : List (Moment D)) :
    s.after (ms ++ more) = (s.after ms).after more := List.foldl_append

theorem Stage.heard_after (s : Stage) (ms : List (Moment D)) :
    (s.after ms).heard = s.heard + (completions ms).length := by
  induction ms generalizing s with
  | nil => rfl
  | cons m ms ih =>
    rw [after, List.foldl_cons, ← after, ih]
    cases m with
    | opening => rfl
    | opened => rfl
    | heard c phase cycle =>
      rw [completions_heard, List.length_cons, ← Nat.add_assoc, Nat.add_right_comm]
      rfl

/-- What is seen later does not change what was seen. -/
theorem Stage.Allows.append {m : Moment D} (h : s.Allows m ms) (more : List (Moment D)) :
    s.Allows m (ms ++ more) := by
  obtain ⟨heard, busy⟩ := s
  cases m with
  | opening phase cycle =>
    obtain ⟨hphase, hcycle, hgoes⟩ := h
    refine ⟨hphase, hcycle, ?_⟩
    cases busy with
    | true =>
      obtain ⟨r, hr⟩ := hgoes
      exact ⟨r, by rw [List.head?_append, hr, Option.some_or]⟩
    | false => exact ⟨returned_append hgoes.1 more, hgoes.2.append more⟩
  | opened => exact h
  | heard => exact h

theorem Numbered.append (h : Numbered s ms) (hmore : Numbered (s.after ms) more) :
    Numbered s (ms ++ more) := by
  induction ms generalizing s with
  | nil => exact hmore
  | cons m ms ih => exact ⟨h.1.append more, ih h.2 hmore⟩

/-- From any moment on, the rest is numbered by the stage reached. -/
theorem Numbered.of_append (h : Numbered s (ms ++ more)) : Numbered (s.after ms) more := by
  induction ms generalizing s with
  | nil => exact h
  | cons m ms ih => exact ih h.2

/-- Completions carry the numbers from the one after those heard on. -/
theorem Numbered.cycles (h : Numbered s ms) :
    (completions ms).map Completion.cycle =
      List.range' (s.heard + 1) (completions ms).length := by
  induction ms generalizing s with
  | nil => rfl
  | cons m ms ih =>
    cases m with
    | opening =>
      have hrest := ih h.2
      exact hrest
    | opened => exact ih h.2
    | heard c phase cycle =>
      have hrest := ih h.2
      rw [completions_heard, List.map_cons, List.length_cons, hrest, List.range'_succ, h.1.2.1]
      rfl

/-! ## Reactions are numbered -/

/-- What a piece of a run has to be, seen from a stage on. -/
structure Runs (s : Stage) (run : List (Moment D) × Box P D) : Prop where
  /-- what is seen is numbered -/
  numbered : Numbered s run.1
  /-- all its openings return -/
  balanced : Balanced run.1
  /-- the box stands afterwards where the moments tell -/
  ends : run.2.At (s.after run.1)

/-- A call that completes nothing and leaves the box where it stands. -/
theorem Runs.quiet (h : b.At s) : Runs s (([] : List (Moment D)), b) := ⟨trivial, balanced_nil, h⟩

/-- The owner hears of the cycle under way and reacts. -/
theorem Runs.hears {run : List (Moment D) × Box P D} {k : Nat} {c : Completion D} (b : Box P D)
    (hc : c.cycle = k + 1) (hb : b.At ⟨k + 1, false⟩) (hrun : Runs ⟨k + 1, false⟩ run) :
    Runs ⟨k, true⟩ (.heard c b.phase b.cycle :: run.1, run.2) where
  numbered := ⟨⟨rfl, hc, hb.phase, hb.cycle⟩, hrun.numbered⟩
  balanced := hrun.balanced.heard c b.phase b.cycle
  ends := hrun.ends

/-- An opening whose piece of the run is known, and what follows it. -/
theorem Runs.opening {during later : List (Moment D) × Box P D} {outcome : Except Refusal Nat}
    (hduring : Runs { s with busy := true } during)
    (hlater : Runs ((Stage.mk s.heard true).after during.1) later)
    (hallows : s.Allows (.opening b.phase b.cycle)
      (during.1 ++ .opened outcome during.2.phase during.2.cycle :: later.1)) :
    Runs s (.opening b.phase b.cycle ::
      (during.1 ++ .opened outcome during.2.phase during.2.cycle :: later.1), later.2) := by
  refine ⟨⟨hallows, ?_⟩, ?_, ?_⟩
  · exact hduring.numbered.append ⟨⟨hduring.ends.phase, hduring.ends.cycle⟩, hlater.numbered⟩
  · have hfirst := (hduring.balanced.opening b.phase during.2.phase b.cycle during.2.cycle
      outcome).append hlater.balanced
    rw [List.cons_append, List.append_assoc] at hfirst
    exact hfirst
  · have hends := hlater.ends
    rw [Stage.after, List.foldl_cons, ← Stage.after, Stage.after_append]
    exact hends

/-- **Every reaction is numbered**, at whatever depth it opens the box. -/
theorem runs_react (reaction : Reaction P D) {b : Box P D} {s : Stage} (hb : b.At s) :
    Runs s (react reaction b) := by
  induction reaction generalizing b s with
  | rest => exact Runs.quiet hb
  | reopen payload inner next ih_inner ih_next =>
    obtain ⟨k, busy⟩ := s
    rw [react]
    cases busy with
    | true =>
      -- a cycle is under way, so the opening is refused
      have hphase : b.phase ≠ .idle := by
        rw [hb.phase]
        nofun
      rw [publish_of_busy payload hphase]
      refine Runs.opening (Runs.quiet hb) (ih_next _ hb) ⟨hb.phase, hb.cycle, ?_⟩
      refine ⟨.alreadyOpen b.label b.cycle, ?_⟩
      rw [← hb.phase, ← hb.cycle]
      rfl
    | false =>
      have hphase : b.phase = .idle := hb.phase
      have hcycle : b.cycle = k := hb.cycle
      have hnumber : b.cycle + 1 = k + 1 := congrArg (· + 1) hcycle
      have hanswer : (.ok (b.cycle + 1) : Except Refusal Nat) = .ok (k + 1) := by rw [hnumber]
      by_cases hwaits : b.mode = .accumulate ∧ b.expected = 0
      · -- the cycle completes at once, and the owner hears of it before the opening returns
        rw [publish_of_unattended payload hphase hwaits.1 hwaits.2]
        have hended : (b.unattended payload).At ⟨k + 1, false⟩ := ⟨rfl, hnumber⟩
        have hdone : (⟨b.label, b.cycle + 1, [], 0⟩ : Completion D).cycle = k + 1 := hnumber
        have hduring := Runs.hears _ hdone hended (ih_inner ⟨b.label, b.cycle + 1, [], 0⟩ hended)
        refine Runs.opening hduring (ih_next _ hduring.ends) ⟨hphase, hcycle, ?_⟩
        exact ⟨(hduring.balanced 0 _).trans (congrArg some hanswer), hdone, rfl, hnumber⟩
      · rw [publish_of_idle payload hphase fun hm he => hwaits ⟨hm, he⟩]
        have hstarted : (b.start payload).At ⟨k, true⟩ := ⟨rfl, hnumber⟩
        refine Runs.opening (Runs.quiet hstarted) (ih_next _ hstarted) ⟨hphase, hcycle, ?_⟩
        exact ⟨congrArg some hanswer, hanswer, rfl, hnumber⟩

/-! ## Calls from outside -/

/-- **One call from outside is numbered**, with all that the owner does meanwhile. -/
theorem runs_turn (hb : b.At s) (t : Turn P D) : Runs s (b.turn t) := by
  obtain ⟨call, owner⟩ := t
  by_cases hopen : ∃ payload, call = .publish payload
  · obtain ⟨payload, rfl⟩ := hopen
    exact runs_react _ hb
  · rw [not_exists] at hopen
    have hturn : b.turn ⟨call, owner⟩ = heed (fun c => react (owner c)) (b.perform call) := by
      cases call with
      | publish payload => exact absurd rfl (hopen payload)
      | _ => rfl
    rw [hturn, heed]
    rcases b.perform_standing hopen with ⟨hnone, hs⟩ | ⟨done, hdone, hcycle, hphase, hs⟩
    · rw [hnone]
      exact Runs.quiet (hb.of_standing hs)
    · rw [hdone]
      obtain ⟨k, busy⟩ := s
      -- a cycle that completes was under way
      obtain rfl : busy = true := by
        cases busy with
        | true => rfl
        | false => cases hphase.symm.trans hb.phase
      have hended : (b.perform call).box.At ⟨k + 1, false⟩ :=
        ⟨congrArg Standing.phase hs, (congrArg Standing.cycle hs).trans hb.cycle⟩
      exact Runs.hears _ (hcycle.trans hb.cycle) hended (runs_react _ hended)

/-- **A run of calls is numbered.** -/
theorem runs_turns (hb : b.At s) (turns : List (Turn P D)) :
    Runs s (b.moments turns, b.afterTurns turns) := by
  induction turns generalizing b s with
  | nil => exact Runs.quiet hb
  | cons t turns ih =>
    have hfirst := runs_turn hb t
    have hrest := ih hfirst.ends
    refine ⟨hfirst.numbered.append hrest.numbered, hfirst.balanced.append hrest.balanced, ?_⟩
    have hends := hrest.ends
    rw [← Stage.after_append] at hends
    exact hends

/-! ## Reactions are calls -/

/-- The calls that an owner makes in answer to a reply, if it hears of a completion. -/
def heeded {α : Type} (answer : Completion D → Box P D → List (Call P D)) (reply : Reply P D α) :
    List (Call P D) :=
  match reply.completion with
  | none => []
  | some c => answer c reply.box

/-- The calls that a reaction comes to on a box, in order. -/
def Reaction.calls : Reaction P D → Box P D → List (Call P D)
  | .rest, _ => []
  | .reopen payload inner next, b =>
    let reply := b.publish payload
    let during := heeded (fun c => (inner c).calls) reply
    .publish payload :: (during ++ (next reply.outcome).calls (reply.box.after during))

/-- The calls that a call from outside comes to, with those of the owner. -/
def turnCalls (b : Box P D) (t : Turn P D) : List (Call P D) :=
  match t.call with
  | .publish payload => (Reaction.reopen payload t.owner fun _ => .rest).calls b
  | c => c :: heeded (fun done => (t.owner done).calls) (b.perform c)

/-- All the calls of a run, those from outside and those of the owner. -/
def callsMade (b : Box P D) (turns : List (Turn P D)) : List (Call P D) :=
  (trace (fun b t => (b.turn t).2) turnCalls b turns).flatten

/-- What is seen of all the calls of a run. -/
def record (b : Box P D) (turns : List (Turn P D)) : List (Event P D) :=
  b.history (b.callsMade turns)

theorem completions_append (ms more : List (Moment D)) :
    completions (ms ++ more) = completions ms ++ completions more := List.filterMap_append ..

/-- Some calls leave the box as a piece of a run does, and complete the same cycles. -/
structure Makes (b : Box P D) (calls : List (Call P D)) (run : List (Moment D) × Box P D) :
    Prop where
  /-- the box afterwards -/
  ends : run.2 = b.after calls
  /-- the completions -/
  hears : completions run.1 = (b.history calls).filterMap Event.completion

/-- One piece of a run after the other. -/
theorem Makes.append {b : Box P D} {calls more : List (Call P D)}
    {run later : List (Moment D) × Box P D} (h : Makes b calls run)
    (hlater : Makes run.2 more later) : Makes b (calls ++ more) (run.1 ++ later.1, later.2) where
  ends := by
    rw [after_append, ← h.ends]
    exact hlater.ends
  hears := by
    rw [history_append, List.filterMap_append, ← h.hears, ← h.ends, ← hlater.hears]
    exact completions_append _ _

/-- A call whose answer by the owner is known. -/
theorem Makes.heed {answer : Completion D → Box P D → List (Moment D) × Box P D}
    {calls : Completion D → Box P D → List (Call P D)} {b : Box P D} {c : Call P D}
    (hanswer : ∀ done b, Makes b (calls done b) (answer done b)) :
    Makes b (c :: heeded calls (b.perform c)) (Box.heed answer (b.perform c)) := by
  rw [heeded, Box.heed]
  cases hdone : (b.perform c).completion with
  | none => exact ⟨rfl, by simp [event, hdone, completions]⟩
  | some done =>
    obtain ⟨hends, hhears⟩ := hanswer done (b.perform c).box
    refine ⟨hends, ?_⟩
    rw [completions_heard, hhears]
    simp [event, hdone]

/-- Whatever an owner does while it hears of a completion, it comes to some calls in order. -/
theorem makes_react (reaction : Reaction P D) (b : Box P D) :
    Makes b (reaction.calls b) (react reaction b) := by
  induction reaction generalizing b with
  | rest => exact ⟨rfl, rfl⟩
  | reopen payload inner next ih_inner ih_next =>
    have hduring := Makes.heed (b := b) (c := .publish payload) ih_inner
    have hall := hduring.append (ih_next (b.publish payload).outcome _)
    rw [hduring.ends] at hall
    have hhears := hall.hears
    rw [completions_append] at hhears
    -- beginning and end of the opening are seen besides, and complete nothing
    have hbox : (Box.heed (fun c => react (inner c)) (b.publish payload)).2 = _ := hduring.ends
    rw [react, hbox]
    exact ⟨hall.ends, (completions_append _ _).trans hhears⟩

theorem makes_turn (b : Box P D) (t : Turn P D) : Makes b (b.turnCalls t) (b.turn t) := by
  obtain ⟨call, owner⟩ := t
  cases call with
  | publish payload => exact makes_react _ b
  | _ => exact Makes.heed fun done => makes_react (owner done)

/-- **Nothing new is reached** by owners that react: a run of calls and reactions leaves the box as
its calls do, made one after the other, and completes the same cycles. -/
theorem makes_turns (b : Box P D) (turns : List (Turn P D)) :
    Makes b (b.callsMade turns) (b.moments turns, b.afterTurns turns) := by
  induction turns generalizing b with
  | nil => exact ⟨rfl, rfl⟩
  | cons t turns ih => exact (b.makes_turn t).append (ih (b.turn t).2)

/-! ## Standing orders -/

/-- The reaction of an owner that opens the next cycle while reopenings are left, with a payload
made from the completion. -/
def standingOrders (next : Completion D → P) : Nat → Completion D → Reaction P D
  | 0, _ => .rest
  | left + 1, c => .reopen (next c) (standingOrders next left) fun _ => .rest

/-- What an attended box tells of a moment. -/
def told : Moment D → Option (BoxEvent D)
  | .opening _ _ => none
  | .opened outcome _ _ => some (.reopened outcome)
  | .heard c phase _ => some (.completed c phase)

/-- An attended box reacts to a completion as its standing orders say. -/
theorem hear_eq_react (next : Completion D → P) (left : Nat) (c : Completion D) (b : Box P D) :
    (AttendedBox.hear next left c b).1 =
        (.heard c b.phase b.cycle :: (react (standingOrders next left c) b).1).filterMap told ∧
      (AttendedBox.hear next left c b).2.2 = (react (standingOrders next left c) b).2 := by
  induction left generalizing c b with
  | zero => exact ⟨rfl, rfl⟩
  | succ left ih =>
    rw [AttendedBox.hear, standingOrders, react, heed]
    cases hdone : (b.publish (next c)).completion with
    | none => exact ⟨rfl, rfl⟩
    | some c' =>
      obtain ⟨hevents, hbox⟩ := ih c' (b.publish (next c)).box
      refine ⟨?_, hbox⟩
      dsimp only
      rw [hevents]
      simp [told, react, List.filterMap_cons]

/-! ## Numbering -/

/-- At any stage a box is idle and counts the completions heard, or it is open and counts one
more. -/
theorem Stage.idle_or_opened (s : Stage) :
    s.phase = .idle ∧ s.cycle = s.heard ∨ s.phase = .opened ∧ s.cycle = s.heard + 1 := by
  obtain ⟨heard, busy⟩ := s
  cases busy with
  | false => exact .inl ⟨rfl, rfl⟩
  | true => exact .inr ⟨rfl, rfl⟩

/-- The owner hears of a completion while the box is idle and counts that cycle, and it finds the
box so if it opens it right away. -/
theorem Numbered.at_heard {c : Completion D} {phase : Phase} {cycle : Nat}
    (h : Numbered s (.heard c phase cycle :: more)) :
    phase = .idle ∧ cycle = c.cycle ∧
      ∀ phase' cycle' later, more = .opening phase' cycle' :: later →
        phase' = .idle ∧ cycle' = c.cycle := by
  obtain ⟨⟨-, hc, hphase, hcycle⟩, hmore⟩ := h
  refine ⟨hphase, hcycle.trans hc.symm, ?_⟩
  rintro phase' cycle' later rfl
  exact ⟨hmore.1.1, hmore.1.2.1.trans hc.symm⟩

/-- An opening returns, and succeeds exactly on an idle box. If it is refused, it returns at once
and the box stands as before. If it succeeds, it starts the cycle that comes next and answers its
number, which is that of the first completion heard afterwards. -/
theorem Numbered.at_opening {phase : Phase} {cycle : Nat}
    (h : Numbered s (.opening phase cycle :: more)) :
    ∃ outcome, returned 0 more = some outcome ∧ ((∃ n, outcome = .ok n) ↔ phase = .idle) ∧
      (∀ r, outcome = .error r → more.head? = some (.opened (.error r) phase cycle)) ∧
      ∀ n, outcome = .ok n → n = cycle + 1 ∧ n = s.heard + 1 ∧ Starts n more ∧
        ∀ c, (completions more).head? = some c → c.cycle = n := by
  obtain ⟨⟨hphase, hcycle, hgoes⟩, hmore⟩ := h
  obtain ⟨heard, busy⟩ := s
  cases busy with
  | true =>
    obtain ⟨r, hr⟩ : ∃ r, more.head? = some (.opened (.error r) phase cycle) := by
      rw [hphase, hcycle]
      exact hgoes
    obtain ⟨rest, rfl⟩ := List.head?_eq_some_iff.mp hr
    refine ⟨.error r, rfl, ?_, ?_, nofun⟩
    · rw [show phase = .opened from hphase]
      exact ⟨nofun, nofun⟩
    · rintro r' hr'
      rw [← Except.error.inj hr', List.head?_cons]
  | false =>
    obtain ⟨hreturned, hstarts⟩ := hgoes
    refine ⟨.ok (heard + 1), hreturned, ⟨fun _ => hphase, fun _ => ⟨_, rfl⟩⟩, nofun, ?_⟩
    rintro n hn
    obtain rfl := Except.ok.inj hn
    refine ⟨congrArg (· + 1) hcycle.symm, rfl, hstarts, fun c hc => ?_⟩
    -- the completions that follow carry the numbers from the one after those heard on
    have hcycles := hmore.cycles
    cases hlist : completions more with
    | nil =>
      rw [hlist] at hc
      cases hc
    | cons c' rest =>
      rw [hlist] at hc hcycles
      obtain rfl := Option.some.inj hc
      exact (List.cons.inj hcycles).1

/-- **Each opening that succeeds starts a cycle of its own**: together with those before, the
numbers that openings answer are those of all cycles started. -/
theorem Numbered.cyclesStarted (h : Numbered s ms) :
    List.range' 1 s.cycle ++ Box.cyclesStarted ms = List.range' 1 (s.after ms).cycle := by
  induction ms generalizing s with
  | nil => exact List.append_nil _
  | cons m ms ih =>
    obtain ⟨heard, busy⟩ := s
    have hrest := ih h.2
    cases m with
    | opening phase cycle =>
      obtain ⟨-, -, hgoes⟩ := h.1
      cases busy with
      | true =>
        obtain ⟨r, hr⟩ := hgoes
        obtain ⟨rest, rfl⟩ := List.head?_eq_some_iff.mp hr
        exact hrest
      | false =>
        have hnext : List.range' 1 (heard + 1) = List.range' 1 heard ++ [heard + 1] := by
          rw [List.range'_concat, Nat.one_mul, Nat.add_comm 1]
        rw [Box.cyclesStarted, hgoes.1]
        rw [Stage.next, Stage.cycle, if_pos rfl, hnext, List.append_assoc] at hrest
        exact hrest
    | opened => exact hrest
    | heard c phase cycle =>
      obtain rfl : busy = true := h.1.1
      exact hrest

/-- **Cycles are numbered in order.** Take a box of either mode and any run of calls on it, with an
owner that may open the box again whenever it hears of a completion.

* The completions carry the numbers 1, 2, 3 and so on.
* Between calls the box is idle and counts the completions, or it is open and counts one more.
* The owner hears of each completion while the box is idle and counts that cycle, and the first
  thing it does, if anything, is to open the box that stands so.
* Every opening returns, and then too the box is idle and counts the completions, or it is open and
  counts one more. The opening succeeds exactly on an idle box. If it is refused, it returns at once
  and leaves the box as it found it.
* If it succeeds, it starts the cycle whose number it answers: what is seen next is the completion
  of that cycle, or the return with the box open in it. The number is one more than the counter that
  the opening found and than the completions heard before it, and the first completion heard after
  it carries this number.
* No two openings start the same cycle, and nothing else starts one: the numbers of the openings
  that succeed are 1, 2, 3 and so on up to the counter of the box. -/
theorem cycles_in_order (serial : Nat) (label : BoxLabel) (mode : BoxMode)
    (turns : List (Turn P D)) :
    let ms := (new serial label mode).moments turns
    let b := (new serial label mode).afterTurns turns
    let k := (completions ms).length
    (completions ms).map Completion.cycle = List.range' 1 k ∧
    (b.phase = .idle ∧ b.cycle = k ∨ b.phase = .opened ∧ b.cycle = k + 1) ∧
    (∀ early c phase cycle late, ms = early ++ .heard c phase cycle :: late →
      phase = .idle ∧ cycle = c.cycle ∧
      ∀ phase' cycle' later, late = .opening phase' cycle' :: later →
        phase' = .idle ∧ cycle' = c.cycle) ∧
    (∀ early outcome phase cycle late, ms = early ++ .opened outcome phase cycle :: late →
      let heard := (completions early).length
      phase = .idle ∧ cycle = heard ∨ phase = .opened ∧ cycle = heard + 1) ∧
    (∀ early phase cycle late, ms = early ++ .opening phase cycle :: late →
      ∃ outcome, returned 0 late = some outcome ∧
        ((∃ n, outcome = .ok n) ↔ phase = .idle) ∧
        (∀ r, outcome = .error r → late.head? = some (.opened (.error r) phase cycle)) ∧
        ∀ n, outcome = .ok n → n = cycle + 1 ∧ n = (completions early).length + 1 ∧
          Starts n late ∧ ∀ c, (completions late).head? = some c → c.cycle = n) ∧
    cyclesStarted ms = List.range' 1 b.cycle := by
  intro ms b k
  have hruns := runs_turns (at_new (P := P) (D := D) serial label mode) turns
  have hheard : ∀ seen : List (Moment D),
      (Stage.after ⟨0, false⟩ seen).heard = (completions seen).length :=
    fun seen => (Stage.heard_after _ seen).trans (Nat.zero_add _)
  have hfrom : ∀ early late, ms = early ++ late → Numbered (Stage.after ⟨0, false⟩ early) late :=
    fun early late hsplit => Numbered.of_append (hsplit ▸ hruns.numbered)
  refine ⟨hruns.numbered.cycles, ?_, ?_, ?_, ?_, ?_⟩
  · have hk : k = (Stage.after ⟨0, false⟩ ms).heard := (hheard ms).symm
    rw [hruns.ends.phase, hruns.ends.cycle, hk]
    exact Stage.idle_or_opened _
  · intro early c phase cycle late hsplit
    exact (hfrom _ _ hsplit).at_heard
  · intro early outcome phase cycle late hsplit
    obtain ⟨⟨hphase, hcycle⟩, -⟩ := hfrom _ _ hsplit
    dsimp only
    rw [hphase, hcycle, ← hheard early]
    exact Stage.idle_or_opened _
  · intro early phase cycle late hsplit
    have hopening := (hfrom _ _ hsplit).at_opening
    rw [hheard] at hopening
    exact hopening
  · rw [hruns.ends.cycle]
    exact hruns.numbered.cyclesStarted

/-- Nobody is registered, and the owner opens the box again from within the completions of the first
two cycles: the openings return last one first, each with its own number. -/
example (serial : Nat) (label : BoxLabel) :
    (new serial label .accumulate : Box Unit Unit).moments
      [⟨.publish (), standingOrders (fun _ => ()) 2⟩] =
    [.opening .idle 0, .heard ⟨label, 1, [], 0⟩ .idle 1,
      .opening .idle 1, .heard ⟨label, 2, [], 0⟩ .idle 2,
      .opening .idle 2, .heard ⟨label, 3, [], 0⟩ .idle 3,
      .opened (.ok 3) .idle 3, .opened (.ok 2) .idle 3, .opened (.ok 1) .idle 3] := rfl

end Box

end PatchDynamics
