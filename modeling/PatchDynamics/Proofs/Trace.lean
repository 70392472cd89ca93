/-!
# Traces

A run feeds inputs to a state one after the other, and its trace is what is seen of each input. What
is proved of a trace is often proved of one entry, with the entries before and after it; so a trace
that is cut in two has to come from a run that is cut in two.

What a state remembers of a trace is often the latest thing of some kind, unless something undid it:
`Since` says so of the trace, and `since_concat` is what one more entry makes of it.
-/

namespace PatchDynamics

variable {σ ι ε : Type} {next : σ → ι → σ} {seen : σ → ι → ε}

/-- What is seen of each input of a run, in order. -/
def trace (next : σ → ι → σ) (seen : σ → ι → ε) : σ → List ι → List ε
  | _, [] => []
  | s, i :: rest => seen s i :: trace next seen (next s i) rest

theorem trace_append (s : σ) (inputs more : List ι) :
    trace next seen s (inputs ++ more) =
      trace next seen s inputs ++ trace next seen (inputs.foldl next s) more := by
  induction inputs generalizing s with
  | nil => rfl
  | cons i inputs ih => rw [List.cons_append, trace, ih, trace, List.cons_append, List.foldl_cons]

/-- An entry is what is seen of its input by the state that the inputs before it lead to. -/
theorem getElem?_trace (s : σ) (inputs : List ι) (time : Nat) :
    (trace next seen s inputs)[time]? =
      inputs[time]?.map (seen ((inputs.take time).foldl next s)) := by
  induction inputs generalizing s time with
  | nil => rfl
  | cons i inputs ih =>
    cases time with
    | zero => rfl
    | succ time => exact ih (next s i) time

/-- Where a trace is cut in two, the run was cut in two. -/
theorem trace_eq_append {s : σ} {inputs : List ι} {early late : List ε}
    (h : trace next seen s inputs = early ++ late) :
    ∃ first second, inputs = first ++ second ∧ trace next seen s first = early ∧
      trace next seen (first.foldl next s) second = late := by
  induction early generalizing s inputs with
  | nil => exact ⟨[], inputs, rfl, rfl, h⟩
  | cons e early ih =>
    cases inputs with
    | nil => cases h
    | cons i inputs =>
      obtain ⟨he, hrest⟩ := List.cons.inj h
      obtain ⟨first, second, rfl, hfirst, hsecond⟩ := ih hrest
      exact ⟨i :: first, second, rfl, by rw [trace, he, hfirst], hsecond⟩

/-- Where a trace is cut at an entry, the run was cut at the input of the entry. -/
theorem trace_eq_append_cons {s : σ} {inputs : List ι} {early late : List ε} {e : ε}
    (h : trace next seen s inputs = early ++ e :: late) :
    ∃ first i rest, inputs = first ++ i :: rest ∧ trace next seen s first = early ∧
      seen (first.foldl next s) i = e ∧
      trace next seen (next (first.foldl next s) i) rest = late := by
  obtain ⟨first, second, rfl, hfirst, hsecond⟩ := trace_eq_append h
  cases second with
  | nil => cases hsecond
  | cons i rest =>
    obtain ⟨he, hrest⟩ := List.cons.inj hsecond
    exact ⟨first, i, rest, rfl, hfirst, he, hrest⟩

/-! ## The latest thing of a kind -/

variable {happened stays : ε → Prop} {entries : List ε} {e : ε}

/-- A thing of the first kind happened, and from then on only things of the second. -/
def Since (happened stays : ε → Prop) (entries : List ε) : Prop :=
  ∃ early e late, entries = early ++ e :: late ∧ happened e ∧ ∀ x ∈ late, stays x

theorem not_since_nil : ¬ Since happened stays [] := by
  rintro ⟨early, e, late, hsplit, -⟩
  exact List.append_ne_nil_of_right_ne_nil _ (List.cons_ne_nil _ _) hsplit.symm

/-- The first entry is such a thing and all others let it stand, or one of these is. -/
theorem since_cons :
    Since happened stays (e :: entries) ↔
      (happened e ∧ ∀ x ∈ entries, stays x) ∨ Since happened stays entries := by
  constructor
  · rintro ⟨early, x, late, hsplit, hx, hlate⟩
    cases early with
    | nil =>
      obtain ⟨rfl, rfl⟩ := List.cons.inj hsplit
      exact .inl ⟨hx, hlate⟩
    | cons y early =>
      obtain ⟨rfl, rfl⟩ := List.cons.inj hsplit
      exact .inr ⟨early, x, late, rfl, hx, hlate⟩
  · rintro (⟨he, hlate⟩ | ⟨early, x, late, rfl, hx, hlate⟩)
    · exact ⟨[], e, entries, rfl, he, hlate⟩
    · exact ⟨e :: early, x, late, rfl, hx, hlate⟩

/-- More entries bring such a thing, or let the latest one stand. -/
theorem since_append {more : List ε} :
    Since happened stays (entries ++ more) ↔
      Since happened stays more ∨ Since happened stays entries ∧ ∀ x ∈ more, stays x := by
  induction entries with
  | nil => simp [not_since_nil]
  | cons e entries ih =>
    rw [List.cons_append, since_cons, since_cons, ih, List.forall_mem_append]
    grind

/-- One more entry is such a thing itself, or lets the latest one stand. -/
theorem since_concat :
    Since happened stays (entries ++ [e]) ↔
      happened e ∨ Since happened stays entries ∧ stays e := by
  rw [since_append, since_cons]
  simp [not_since_nil]

end PatchDynamics
