import AuctionServer.Support.Machine

/-!
# Traces of a labelled relation, and machines that refine it

A specification is a relation between states, one for each label.  A machine
refines it when every admissible event is one of its steps, seen through an
abstraction of the states and a label for the event.  A run of the machine is
then a trace of the specification.  A machine is mirrored by another when each
of its steps is a step of the other, and simulated when each is met by a run of
the other; then so is each of its runs.
-/

namespace Machine

variable {α ℓ : Type}

/-- The labels lead from one state to the other, one step for each. -/
inductive Trace (R : α → ℓ → α → Prop) : α → List ℓ → α → Prop
  | nil (a : α) : Trace R a [] a
  | cons {a b c : α} {l : ℓ} {ls : List ℓ} (hstep : R a l b)
      (hrest : Trace R b ls c) : Trace R a (l :: ls) c

variable {R : α → ℓ → α → Prop} {a b : α}

@[simp] theorem trace_nil : Trace R a [] b ↔ a = b := by
  constructor
  · rintro ⟨⟩
    rfl
  · rintro rfl
    exact .nil a

theorem trace_cons {l : ℓ} {ls : List ℓ} :
    Trace R a (l :: ls) b ↔ ∃ m, R a l m ∧ Trace R m ls b := by
  constructor
  · rintro (_ | ⟨hstep, hrest⟩)
    exact ⟨_, hstep, hrest⟩
  · rintro ⟨m, hstep, hrest⟩
    exact .cons hstep hrest

theorem trace_append {ls ls' : List ℓ} :
    Trace R a (ls ++ ls') b ↔ ∃ m, Trace R a ls m ∧ Trace R m ls' b := by
  induction ls generalizing a with
  | nil => simp
  | cons l ls ih =>
      rw [List.cons_append, trace_cons]
      simp only [ih, trace_cons]
      constructor
      · rintro ⟨n, hstep, m, hfirst, hlast⟩
        exact ⟨m, ⟨n, hstep, hfirst⟩, hlast⟩
      · rintro ⟨m, ⟨n, hstep, hfirst⟩, hlast⟩
        exact ⟨n, hstep, m, hfirst, hlast⟩

variable {σ ι ο : Type} {M : Machine σ ι ο} {G : Event σ ι ο → Prop}
  {I : σ → Prop} {s t : σ} {is : List ι} {es : List (Event σ ι ο)}

/-- When every admissible event is a step of the specification, a run is a
trace of it. -/
theorem run_refines {abs : σ → α} {label : Event σ ι ο → ℓ}
    (hkeep : M.Preserves G I)
    (hstep : ∀ e, M.Fires e → G e → I e.before →
      R (abs e.before) (label e) (abs e.after))
    (h : M.run s is = some (es, t)) (hG : ∀ e ∈ es, G e) (hs : I s) :
    Trace R (abs s) (es.map label) (abs t) := by
  induction is generalizing s es with
  | nil =>
      obtain ⟨rfl, rfl⟩ := by simpa using h
      exact .nil _
  | cons i is ih =>
      obtain ⟨o, s', rest, hfires, hrest, rfl⟩ := run_cons_cases h
      have hfirst := hG ⟨s, i, o, s'⟩ List.mem_cons_self
      have hs' : I s' := hkeep ⟨s, i, o, s'⟩ hfires hfirst hs
      exact .cons (hstep ⟨s, i, o, s'⟩ hfires hfirst hs)
        (ih hrest (fun e he => hG e (List.mem_cons_of_mem _ he)) hs')

/-- When every admissible event is a step of another machine, seen through an
abstraction of the states, a run is a run of that machine. -/
theorem run_mirrors {σ' ι' ο' : Type} {N : Machine σ' ι' ο'} {abs : σ → σ'}
    {input : Event σ ι ο → ι'} {output : Event σ ι ο → ο'}
    (hkeep : M.Preserves G I)
    (hstep : ∀ e, M.Fires e → G e → I e.before →
      N.step (abs e.before) (input e) = some (output e, abs e.after))
    (h : M.run s is = some (es, t)) (hG : ∀ e ∈ es, G e) (hs : I s) :
    N.run (abs s) (es.map input) =
      some (es.map fun e => ⟨abs e.before, input e, output e, abs e.after⟩,
        abs t) := by
  induction is generalizing s es with
  | nil =>
      obtain ⟨rfl, rfl⟩ := by simpa using h
      rfl
  | cons i is ih =>
      obtain ⟨o, s', rest, hfires, hrest, rfl⟩ := run_cons_cases h
      have hfirst := hG ⟨s, i, o, s'⟩ List.mem_cons_self
      have hs' : I s' := hkeep ⟨s, i, o, s'⟩ hfires hfirst hs
      have hlater := ih hrest (fun e he => hG e (List.mem_cons_of_mem _ he)) hs'
      exact run_cons (hstep ⟨s, i, o, s'⟩ hfires hfirst hs) hlater

/-- When each admissible step is met by a run of another machine, a run is met
by the runs for its steps, one after the other. -/
theorem run_simulates {σ' ι' ο' : Type} {N : Machine σ' ι' ο'}
    {Rel : σ → σ' → Prop} {Meets : Event σ ι ο → List (Event σ' ι' ο') → Prop}
    (hstep : ∀ e s', M.Fires e → G e → Rel e.before s' →
      ∃ is' es' t', N.run s' is' = some (es', t') ∧ Meets e es' ∧
        Rel e.after t')
    (h : M.run s is = some (es, t)) (hG : ∀ e ∈ es, G e) {s' : σ'}
    (hs : Rel s s') :
    ∃ parts t', List.Forall₂ Meets es parts ∧
      N.run s' (parts.flatten.map Event.input) = some (parts.flatten, t') ∧
      Rel t t' := by
  induction is generalizing s es s' with
  | nil =>
      obtain ⟨rfl, rfl⟩ := by simpa using h
      exact ⟨[], s', .nil, rfl, hs⟩
  | cons i is ih =>
      obtain ⟨o, u, rest, hfires, hrest, rfl⟩ := run_cons_cases h
      obtain ⟨is', es', u', hfirst, hmeets, hu⟩ :=
        hstep ⟨s, i, o, u⟩ s' hfires (hG _ List.mem_cons_self) hs
      obtain ⟨parts, t', hparts, hlast, ht⟩ :=
        ih hrest (fun e he => hG e (List.mem_cons_of_mem _ he)) hu
      refine ⟨es' :: parts, t', .cons hmeets hparts, ?_, ht⟩
      rw [List.flatten_cons, List.map_append, run_append_eq_some]
      exact ⟨u', es', _, by rwa [run_inputs hfirst], hlast, rfl⟩

section Parts

variable {ε ε' : Type} {Meets : ε → List ε' → Prop} {es : List ε}
  {parts : List (List ε')}

/-- What happens in a part happens for one of the steps. -/
theorem exists_meets_of_mem (h : List.Forall₂ Meets es parts) {e' : ε'}
    (he' : e' ∈ parts.flatten) : ∃ e ∈ es, ∃ part, Meets e part ∧ e' ∈ part := by
  induction h with
  | nil => simp at he'
  | @cons e part es parts hmeets _ ih =>
      rw [List.flatten_cons, List.mem_append] at he'
      rcases he' with hhead | hrest
      · exact ⟨e, List.mem_cons_self, part, hmeets, hhead⟩
      · obtain ⟨e₀, he₀, hmem⟩ := ih hrest
        exact ⟨e₀, List.mem_cons_of_mem e he₀, hmem⟩

/-- When each counted step is met by a part with a counted step, the parts
count at least as many. -/
theorem countP_le_countP_flatten {p : ε → Bool} {q : ε' → Bool}
    (hcount : ∀ e part, Meets e part → p e = true → ∃ e' ∈ part, q e' = true)
    (h : List.Forall₂ Meets es parts) : es.countP p ≤ parts.flatten.countP q := by
  induction h with
  | nil => simp
  | @cons e part es parts hmeets _ ih =>
      rw [List.flatten_cons, List.countP_append]
      by_cases he : p e = true
      · rw [List.countP_cons_of_pos he, add_comm]
        exact Nat.add_le_add
          (List.countP_pos_iff.mpr (hcount e part hmeets he)) ih
      · rw [List.countP_cons_of_neg he]
        exact Nat.le_add_left_of_le ih

end Parts

end Machine
