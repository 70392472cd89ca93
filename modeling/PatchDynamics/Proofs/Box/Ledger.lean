import Mathlib.Data.List.ReduceOption
import Mathlib.Logic.Function.Basic
import PatchDynamics.Box
import PatchDynamics.Proofs.Trace

/-!
# Ledgers

Of all that a box holds, a registration and its end look at the handles that are out and at the
number of the next one only. This file takes these apart from the rest, for any number of boxes:

* `Book`, `Book.ask` — what a box knows of handles, and what it says to a request;
* `Book.Sound` — what holds of a book at all times;
* `Ledger` — the books at some places;
* `Ledger.run_eq` — runs of which a ledger sees nothing but requests.
-/

namespace PatchDynamics

/-- What a box knows of its handles. -/
structure Book where
  /-- the number of the box -/
  serial : Nat
  /-- the token of the next registration -/
  next : Nat
  /-- the handles that are out, in the order of registration -/
  handles : List Handle

/-- What changes the handles that are out. -/
inductive Request where
  /-- a compute is to be registered -/
  | register (task : ComputeId)
  /-- a handle is given back -/
  | unregister (h : Handle)

/-- What a box says to a request. -/
inductive Verdict where
  /-- no -/
  | refused
  /-- here is a handle -/
  | issued (h : Handle)
  /-- the handle is taken back -/
  | returned

/-! ## One book -/

namespace Book

variable {b : Book} {r : Request}

/-- The computes that are registered, in the order of registration. -/
def tasks (b : Book) : List ComputeId := b.handles.map Handle.task

/-- The book with the next handle issued to a compute. -/
def entered (b : Book) (task : ComputeId) : Book :=
  ⟨b.serial, b.next + 1, b.handles ++ [⟨b.serial, task, b.next⟩]⟩

/-- The book with a handle taken back. -/
def left (b : Book) (h : Handle) : Book := { b with handles := b.handles.filter (· ≠ h) }

/-- What the box says to a request, and the book after it. -/
def ask (b : Book) : Request → Verdict × Book
  | .register task =>
    if task ∈ b.tasks then (.refused, b) else (.issued ⟨b.serial, task, b.next⟩, b.entered task)
  | .unregister h => if h ∈ b.handles then (.returned, b.left h) else (.refused, b)

@[simp] theorem serial_ask (b : Book) (r : Request) : (b.ask r).2.serial = b.serial := by
  cases r <;> (rw [ask]; split <;> rfl)

/-- A request that is refused changes nothing. -/
theorem ask_of_refused (h : (b.ask r).1 = .refused) : (b.ask r).2 = b := by
  cases r with
  | register task =>
    rw [ask] at h ⊢
    by_cases hmem : task ∈ b.tasks
    · rw [if_pos hmem]
    · rw [if_neg hmem] at h
      cases h
  | unregister g =>
    rw [ask] at h ⊢
    by_cases hmem : g ∈ b.handles
    · rw [if_pos hmem] at h
      cases h
    · rw [if_neg hmem]

/-- What holds of a book at all times. -/
structure Sound (b : Book) : Prop where
  /-- handles are issued by the box itself -/
  own : ∀ h ∈ b.handles, h.box = b.serial
  /-- tokens are positive and before the next one -/
  dated : ∀ h ∈ b.handles, 0 < h.token ∧ h.token < b.next
  /-- the token tells the handle -/
  apart : ∀ g ∈ b.handles, ∀ h ∈ b.handles, g.token = h.token → g = h
  /-- there is no token zero -/
  positive : 0 < b.next

namespace Sound

theorem entered (hb : b.Sound) (task : ComputeId) : (b.entered task).Sound := by
  refine ⟨fun h hh => ?_, fun h hh => ?_, fun g hg h hh hsame => ?_, Nat.succ_pos _⟩
  · rcases List.mem_append.mp hh with hh | hh
    · exact hb.own h hh
    · rw [List.mem_singleton.mp hh]
      rfl
  · rcases List.mem_append.mp hh with hh | hh
    · exact ⟨(hb.dated h hh).1, Nat.lt_succ_of_lt (hb.dated h hh).2⟩
    · rw [List.mem_singleton.mp hh]
      exact ⟨hb.positive, Nat.lt_succ_self _⟩
  · -- a token that is out is before the next one
    rcases List.mem_append.mp hg with hg | hg <;> rcases List.mem_append.mp hh with hh | hh
    · exact hb.apart g hg h hh hsame
    · rw [List.mem_singleton.mp hh] at hsame
      exact absurd hsame (Nat.ne_of_lt (hb.dated g hg).2)
    · rw [List.mem_singleton.mp hg] at hsame
      exact absurd hsame.symm (Nat.ne_of_lt (hb.dated h hh).2)
    · rw [List.mem_singleton.mp hg, List.mem_singleton.mp hh]

theorem left (hb : b.Sound) (h : Handle) : (b.left h).Sound where
  own g hg := hb.own g (List.mem_of_mem_filter hg)
  dated g hg := hb.dated g (List.mem_of_mem_filter hg)
  apart g hg k hk := hb.apart g (List.mem_of_mem_filter hg) k (List.mem_of_mem_filter hk)
  positive := hb.positive

theorem ask (hb : b.Sound) (r : Request) : (b.ask r).2.Sound := by
  cases r with
  | register task =>
    rw [Book.ask]
    split
    · exact hb
    · exact hb.entered task
  | unregister h =>
    rw [Book.ask]
    split
    · exact hb.left h
    · exact hb

end Sound

end Book

/-! ## Ledgers -/

/-- The books at some places; at others there is no box. -/
abbrev Ledger (ι : Type) : Type := ι → Option Book

namespace Ledger

section Requests

variable {ι : Type} {l : Ledger ι} {i j : ι} {r : Request} {b : Book}

/-- The numbers of the boxes. -/
def serials (l : Ledger ι) (i : ι) : Option Nat := (l i).map Book.serial

theorem serials_of_some (hb : l i = some b) : l.serials i = some b.serial := by
  rw [serials, hb, Option.map_some]

/-- What is said to a request at a place. -/
def verdict (l : Ledger ι) (i : ι) (r : Request) : Verdict :=
  match l i with
  | none => .refused
  | some b => (b.ask r).1

theorem verdict_of_some (hb : l i = some b) (r : Request) : l.verdict i r = (b.ask r).1 := by
  rw [verdict, hb]

variable [DecidableEq ι]

/-- The ledger after a request at a place. -/
def next (l : Ledger ι) (i : ι) (r : Request) : Ledger ι :=
  Function.update l i ((l i).map fun b => (b.ask r).2)

/-- The ledger after some requests. -/
def after (l : Ledger ι) (requests : List (ι × Request)) : Ledger ι :=
  requests.foldl (fun l q => l.next q.1 q.2) l

/-- What is said to some requests, in order. -/
def verdicts : Ledger ι → List (ι × Request) → List Verdict :=
  trace (fun l q => l.next q.1 q.2) fun l q => l.verdict q.1 q.2

@[simp] theorem next_self (l : Ledger ι) (i : ι) (r : Request) :
    l.next i r i = (l i).map fun b => (b.ask r).2 := Function.update_self ..

theorem next_of_ne (l : Ledger ι) (r : Request) (hne : j ≠ i) : l.next i r j = l j :=
  Function.update_of_ne hne ..

/-- A request that is refused changes nothing. -/
theorem next_of_refused (hrefused : l.verdict i r = .refused) : l.next i r = l := by
  rw [verdict] at hrefused
  rw [next]
  cases hb : l i with
  | none => rw [Option.map_none, ← hb, Function.update_eq_self]
  | some b =>
    rw [hb] at hrefused
    rw [Option.map_some, Book.ask_of_refused hrefused, ← hb, Function.update_eq_self]

theorem serials_next (l : Ledger ι) (i : ι) (r : Request) : (l.next i r).serials = l.serials := by
  funext j
  rw [serials, serials]
  by_cases hsame : j = i
  · rw [hsame, next_self, Option.map_map]
    exact Option.map_congr fun b _ => b.serial_ask r
  · rw [next_of_ne l r hsame]

/-- What holds of a ledger at all times. -/
structure Sound (l : Ledger ι) : Prop where
  /-- the books are sound -/
  books : ∀ i b, l i = some b → b.Sound
  /-- the number tells the place of a box -/
  apart : ∀ i j n, l.serials i = some n → l.serials j = some n → i = j

omit [DecidableEq ι] in
/-- A handle is out at one place only. -/
theorem Sound.place_eq (hl : l.Sound) {c : Book} {x : Handle} (hb : l i = some b)
    (hx : x ∈ b.handles) (hc : l j = some c) (hbox : x.box = c.serial) : j = i := by
  have hserial := (hl.books i b hb).own x hx
  refine hl.apart j i c.serial (serials_of_some hc) ?_
  rw [serials_of_some hb, ← hserial, hbox]

theorem Sound.next (hl : l.Sound) (i : ι) (r : Request) : (l.next i r).Sound := by
  refine ⟨fun j c hc => ?_, ?_⟩
  · by_cases hsame : j = i
    · rw [hsame, next_self, Option.map_eq_some_iff] at hc
      obtain ⟨b, hb, rfl⟩ := hc
      exact (hl.books i b hb).ask r
    · rw [next_of_ne l r hsame] at hc
      exact hl.books j c hc
  · rw [serials_next]
    exact hl.apart

theorem Sound.after (hl : l.Sound) (requests : List (ι × Request)) : (l.after requests).Sound := by
  induction requests generalizing l with
  | nil => exact hl
  | cons q requests ih => exact ih (hl.next q.1 q.2)

/-- **A run whose steps are requests, or leave the books alone**, is a run of requests. -/
theorem run_eq {σ κ : Type} {step : σ → κ → σ} {ledger : σ → Ledger ι}
    {request? : κ → Option (ι × Request)} {verdict? : σ → κ → Option Verdict} {inv : σ → Prop}
    (hkeeps : ∀ s c, inv s → inv (step s c))
    (hnone : ∀ s c, inv s → request? c = none →
      ledger (step s c) = ledger s ∧ verdict? s c = none)
    (hsome : ∀ s c q, inv s → request? c = some q →
      verdict? s c = some ((ledger s).verdict q.1 q.2) ∧
        ledger (step s c) = (ledger s).next q.1 q.2)
    {s : σ} (hs : inv s) (calls : List κ) :
    ledger (calls.foldl step s) = (ledger s).after (calls.filterMap request?) ∧
      (trace step verdict? s calls).reduceOption =
        (ledger s).verdicts (calls.filterMap request?) := by
  induction calls generalizing s with
  | nil => exact ⟨rfl, rfl⟩
  | cons c calls ih =>
    obtain ⟨hafter, hverdicts⟩ := ih (hkeeps s c hs)
    rw [List.foldl_cons, hafter, trace]
    cases hrequest : request? c with
    | none =>
      obtain ⟨hledger, hverdict⟩ := hnone s c hs hrequest
      rw [List.filterMap_cons_none hrequest, hverdict, List.reduceOption_cons_of_none, hverdicts,
        hledger]
      exact ⟨rfl, rfl⟩
    | some q =>
      obtain ⟨hverdict, hledger⟩ := hsome s c q hs hrequest
      rw [List.filterMap_cons_some hrequest, hverdict, List.reduceOption_cons_of_some, hverdicts,
        hledger]
      exact ⟨rfl, rfl⟩

end Requests

end Ledger

end PatchDynamics
