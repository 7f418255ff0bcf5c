import Mathlib

/-!
# Runs of a machine driven by inputs

A machine answers an input with an output and a next state, or has no defined
step.  A run feeds it a list of inputs and records what happened as a list of
events.  The results below are the induction rules for such runs: an
assertion that every admissible event preserves holds throughout a run, and an
event that closes something for good happens at most once.
-/

/-- A deterministic machine; `none` marks an undefined step. -/
structure Machine (σ ι ο : Type) where
  step : σ → ι → Option (ο × σ)

namespace Machine

variable {σ ι ο : Type}

/-- One recorded step. -/
structure Event (σ ι ο : Type) where
  before : σ
  input : ι
  output : ο
  after : σ

/-- The event is a step of the machine. -/
def Fires (M : Machine σ ι ο) (e : Event σ ι ο) : Prop :=
  M.step e.before e.input = some (e.output, e.after)

/-- Feed the inputs in order; the events and the last state. -/
def run (M : Machine σ ι ο) : σ → List ι → Option (List (Event σ ι ο) × σ)
  | s, [] => some ([], s)
  | s, i :: is =>
      match M.step s i with
      | none => none
      | some (o, s') =>
          match M.run s' is with
          | none => none
          | some (es, t) => some (⟨s, i, o, s'⟩ :: es, t)

@[simp] theorem run_nil (M : Machine σ ι ο) (s : σ) :
    M.run s [] = some ([], s) := rfl

/-- A step and a run from where it leads. -/
theorem run_cons {M : Machine σ ι ο} {s s' t : σ} {i : ι} {is : List ι} {o : ο}
    {es : List (Event σ ι ο)} (hstep : M.step s i = some (o, s'))
    (hrest : M.run s' is = some (es, t)) :
    M.run s (i :: is) = some (⟨s, i, o, s'⟩ :: es, t) := by
  rw [run, hstep]
  simp only [hrest]

/-- A run with a first input begins with its step. -/
theorem run_cons_cases {M : Machine σ ι ο} {s t : σ} {i : ι} {is : List ι}
    {es : List (Event σ ι ο)} (h : M.run s (i :: is) = some (es, t)) :
    ∃ o s' rest, M.step s i = some (o, s') ∧ M.run s' is = some (rest, t) ∧
      es = ⟨s, i, o, s'⟩ :: rest := by
  rw [run] at h
  cases hstep : M.step s i with
  | none => simp [hstep] at h
  | some r =>
      obtain ⟨o, s'⟩ := r
      cases hrest : M.run s' is with
      | none => simp [hstep, hrest] at h
      | some q =>
          obtain ⟨rest, t'⟩ := q
          simp only [hstep, hrest, Option.some.injEq, Prod.mk.injEq] at h
          obtain ⟨rfl, rfl⟩ := h
          exact ⟨o, s', rest, rfl, hrest, rfl⟩

theorem run_singleton {M : Machine σ ι ο} {s t : σ} {i : ι} {o : ο}
    (h : M.step s i = some (o, t)) :
    M.run s [i] = some ([⟨s, i, o, t⟩], t) :=
  run_cons h (run_nil M t)

theorem run_pair {M : Machine σ ι ο} {s t u : σ} {i j : ι} {o p : ο}
    (h : M.step s i = some (o, t)) (h' : M.step t j = some (p, u)) :
    M.run s [i, j] = some ([⟨s, i, o, t⟩, ⟨t, j, p, u⟩], u) :=
  run_cons h (run_singleton h')

/-- The recorded inputs are the ones fed. -/
theorem run_inputs {M : Machine σ ι ο} {s t : σ} {is : List ι}
    {es : List (Event σ ι ο)} (h : M.run s is = some (es, t)) :
    es.map Event.input = is := by
  induction is generalizing s es with
  | nil =>
      obtain ⟨rfl, -⟩ := by simpa using h
      rfl
  | cons i is ih =>
      obtain ⟨o, s', rest, -, hrest, rfl⟩ := run_cons_cases h
      simp [ih hrest]

/-- The input of a recorded event was fed. -/
theorem run_input_mem {M : Machine σ ι ο} {s t : σ} {is : List ι}
    {es : List (Event σ ι ο)} (h : M.run s is = some (es, t)) :
    ∀ e ∈ es, e.input ∈ is := by
  intro e he
  rw [← run_inputs h]
  exact List.mem_map_of_mem he

/-- Inputs fed in two batches. -/
theorem run_append_eq_some {M : Machine σ ι ο} {s t : σ} {is js : List ι}
    {es : List (Event σ ι ο)} :
    M.run s (is ++ js) = some (es, t) ↔
      ∃ m es₁ es₂, M.run s is = some (es₁, m) ∧
        M.run m js = some (es₂, t) ∧ es = es₁ ++ es₂ := by
  induction is generalizing s es with
  | nil => simp
  | cons i is ih =>
      constructor
      · intro h
        obtain ⟨o, s', rest, hstep, hrest, rfl⟩ := run_cons_cases h
        obtain ⟨m, es₁, es₂, h₁, h₂, rfl⟩ := ih.mp hrest
        exact ⟨m, _ :: es₁, es₂, run_cons hstep h₁, h₂, rfl⟩
      · rintro ⟨m, es₁, es₂, h₁, h₂, rfl⟩
        obtain ⟨o, s', rest, hstep, hrest, rfl⟩ := run_cons_cases h₁
        exact run_cons hstep (ih.mpr ⟨m, rest, es₂, hrest, h₂, rfl⟩)

theorem run_fires {M : Machine σ ι ο} {s t : σ} {is : List ι}
    {es : List (Event σ ι ο)} (h : M.run s is = some (es, t)) :
    ∀ e ∈ es, M.Fires e := by
  induction is generalizing s es with
  | nil =>
      obtain ⟨rfl, -⟩ := by simpa using h
      simp
  | cons i is ih =>
      obtain ⟨o, s', rest, hstep, hrest, rfl⟩ := run_cons_cases h
      intro e he
      rcases List.mem_cons.mp he with rfl | he
      · exact hstep
      · exact ih hrest e he

/-! ## Assertions kept along a run -/

/-- `I` is kept by every step of the machine whose event satisfies `G`. -/
def Preserves (M : Machine σ ι ο) (G : Event σ ι ο → Prop)
    (I : σ → Prop) : Prop :=
  ∀ e, M.Fires e → G e → I e.before → I e.after

/-- An assertion kept by every admissible event holds around each of them and
at the end of the run. -/
theorem run_invariant {M : Machine σ ι ο} {G : Event σ ι ο → Prop}
    {I : σ → Prop} (hkeep : M.Preserves G I)
    {s t : σ} {is : List ι} {es : List (Event σ ι ο)}
    (h : M.run s is = some (es, t)) (hG : ∀ e ∈ es, G e) (hs : I s) :
    I t ∧ ∀ e ∈ es, I e.before ∧ I e.after := by
  induction is generalizing s es with
  | nil =>
      obtain ⟨rfl, rfl⟩ := by simpa using h
      simpa using hs
  | cons i is ih =>
      obtain ⟨o, s', rest, hstep, hrest, rfl⟩ := run_cons_cases h
      have hs' : I s' := hkeep ⟨s, i, o, s'⟩ hstep (hG _ (by simp)) hs
      obtain ⟨ht, hmem⟩ :=
        ih hrest (fun e he => hG e (List.mem_cons_of_mem _ he)) hs'
      refine ⟨ht, ?_⟩
      intro e he
      rcases List.mem_cons.mp he with rfl | he
      · exact ⟨hs, hs'⟩
      · exact hmem e he

/-- When an assertion survives exactly the events with property `C`, it holds
throughout a run exactly when all events of the run have the property. -/
theorem run_invariant_iff {M : Machine σ ι ο} {I : σ → Prop}
    {C : Event σ ι ο → Prop}
    (hevent : ∀ e, M.Fires e → I e.before → (I e.after ↔ C e))
    {s t : σ} {is : List ι} {es : List (Event σ ι ο)}
    (h : M.run s is = some (es, t)) (hs : I s) :
    (∀ e ∈ es, I e.after) ↔ ∀ e ∈ es, C e := by
  induction is generalizing s es with
  | nil =>
      obtain ⟨rfl, -⟩ := by simpa using h
      simp
  | cons i is ih =>
      obtain ⟨o, s', rest, hstep, hrest, rfl⟩ := run_cons_cases h
      have hfirst : I s' ↔ C ⟨s, i, o, s'⟩ := hevent ⟨s, i, o, s'⟩ hstep hs
      rw [List.forall_mem_cons, List.forall_mem_cons, ← hfirst]
      exact and_congr_right fun hs' => ih hrest hs'

/-- An assertion about the events so far and the state they led to, kept by
every admissible event, holds before each of them and at the end. -/
theorem run_history {M : Machine σ ι ο} {G : Event σ ι ο → Prop}
    {I : List (Event σ ι ο) → σ → Prop}
    (hkeep : ∀ past e, M.Fires e → G e → I past e.before →
      I (past ++ [e]) e.after)
    {s t : σ} {is : List ι} {es : List (Event σ ι ο)}
    (h : M.run s is = some (es, t)) (hG : ∀ e ∈ es, G e) (hs : I [] s) :
    I es t ∧ ∀ past e rest, es = past ++ e :: rest → I past e.before := by
  induction is generalizing s es I with
  | nil =>
      obtain ⟨rfl, rfl⟩ := by simpa using h
      refine ⟨hs, ?_⟩
      intro past e rest heq
      simp at heq
  | cons i is ih =>
      obtain ⟨o, s', tail, hstep, htail, rfl⟩ := run_cons_cases h
      have hs' : I [⟨s, i, o, s'⟩] s' :=
        hkeep [] ⟨s, i, o, s'⟩ hstep (hG _ (by simp)) hs
      -- The later events are judged with the first one in their past.
      obtain ⟨ht, hmem⟩ := ih (I := fun past => I (⟨s, i, o, s'⟩ :: past))
        (fun past e hfires he hI => hkeep (_ :: past) e hfires he hI) htail
        (fun e he => hG e (List.mem_cons_of_mem _ he)) hs'
      refine ⟨ht, ?_⟩
      intro past e rest heq
      cases past with
      | nil =>
          obtain ⟨rfl, -⟩ := List.cons.inj heq
          exact hs
      | cons first past =>
          obtain ⟨rfl, hrest⟩ := List.cons.inj heq
          exact hmem past e rest hrest

/-- A quantity that each admissible event changes by its own contribution
ends up changed by the sum of the contributions. -/
theorem run_sum {M : Machine σ ι ο} {G : Event σ ι ο → Prop} {I : σ → Prop}
    (hkeep : M.Preserves G I) {value : σ → ℤ} {gain : Event σ ι ο → ℤ}
    (hgain : ∀ e, M.Fires e → G e → I e.before →
      value e.after = value e.before + gain e)
    {s t : σ} {is : List ι} {es : List (Event σ ι ο)}
    (h : M.run s is = some (es, t)) (hG : ∀ e ∈ es, G e) (hs : I s) :
    value t = value s + (es.map gain).sum := by
  induction is generalizing s es with
  | nil =>
      obtain ⟨rfl, rfl⟩ := by simpa using h
      simp
  | cons i is ih =>
      obtain ⟨o, s', rest, hstep, hrest, rfl⟩ := run_cons_cases h
      have hG₀ := hG ⟨s, i, o, s'⟩ (by simp)
      have hs' : I s' := hkeep ⟨s, i, o, s'⟩ hstep hG₀ hs
      have hfirst : value s' = value s + gain ⟨s, i, o, s'⟩ :=
        hgain ⟨s, i, o, s'⟩ hstep hG₀ hs
      have hlast := ih hrest (fun e he => hG e (List.mem_cons_of_mem _ he)) hs'
      rw [hlast, hfirst, List.map_cons, List.sum_cons, add_assoc]

/-- The sum of the contributions so far is right in every state of a run
exactly when every event adds its own. -/
theorem run_sum_iff {M : Machine σ ι ο} {value : σ → ℤ}
    {gain : Event σ ι ο → ℤ} {s t : σ} {is : List ι} {es : List (Event σ ι ο)}
    (h : M.run s is = some (es, t)) :
    (∀ past e rest, es = past ++ e :: rest →
        value e.after = value s + ((past ++ [e]).map gain).sum) ↔
      ∀ e ∈ es, value e.after = value e.before + gain e := by
  induction is generalizing s es with
  | nil =>
      obtain ⟨rfl, -⟩ := by simpa using h
      simp
  | cons i is ih =>
      obtain ⟨o, s', tail, -, htail, rfl⟩ := run_cons_cases h
      rw [List.forall_mem_cons, ← ih htail]
      constructor
      · intro hsums
        have hfirst := hsums [] ⟨s, i, o, s'⟩ tail rfl
        simp only [List.nil_append, List.map_cons, List.map_nil, List.sum_cons,
          List.sum_nil, add_zero] at hfirst
        refine ⟨hfirst, ?_⟩
        intro past e rest heq
        have hlater := hsums (⟨s, i, o, s'⟩ :: past) e rest (by rw [heq]; rfl)
        rw [hlater, hfirst, List.cons_append, List.map_cons, List.sum_cons,
          add_assoc]
      · rintro ⟨hfirst, hsums⟩ past e rest heq
        cases past with
        | nil =>
            obtain ⟨rfl, -⟩ := List.cons.inj heq
            simpa using hfirst
        | cons first past =>
            obtain ⟨rfl, hrest⟩ := List.cons.inj heq
            rw [hsums past e rest hrest, hfirst, List.cons_append,
              List.map_cons, List.sum_cons, add_assoc]

/-! ## Two machines in lockstep -/

/-- When related states take related inputs to related outputs and related
states, related inputs give related runs. -/
theorem run_lockstep {σ' ι' ο' : Type} {M : Machine σ ι ο}
    {N : Machine σ' ι' ο'} {R : σ → σ' → Prop} {In : ι → ι' → Prop}
    {Out : ο → ο' → Prop}
    (hstep : ∀ s s' i i', R s s' → In i i' →
      ∃ o t o' t', M.step s i = some (o, t) ∧ N.step s' i' = some (o', t') ∧
        Out o o' ∧ R t t')
    {s : σ} {s' : σ'} {is : List ι} {is' : List ι'}
    (hin : List.Forall₂ In is is') (hs : R s s') :
    ∃ es t es' t', M.run s is = some (es, t) ∧ N.run s' is' = some (es', t') ∧
      List.Forall₂ (fun e e' => R e.before e'.before ∧ In e.input e'.input ∧
        Out e.output e'.output) es es' := by
  induction hin generalizing s s' with
  | nil => exact ⟨[], s, [], s', rfl, rfl, List.Forall₂.nil⟩
  | cons hhead _ ih =>
      obtain ⟨o, t, o', t', hM, hN, hout, ht⟩ := hstep s s' _ _ hs hhead
      obtain ⟨es, u, es', u', hrest, hrest', hevents⟩ := ih ht
      refine ⟨_, u, _, u', run_cons hM hrest, run_cons hN hrest', ?_⟩
      exact List.Forall₂.cons ⟨hs, hhead, hout⟩ hevents

/-- A second run of the same machine keeps up with the first, in a relation that
may depend on what the first has done so far. -/
theorem run_follows {M : Machine σ ι ο} {R : List (Event σ ι ο) → σ → σ → Prop}
    {In : ι → ι → Prop} {G : List (Event σ ι ο) → Event σ ι ο → Prop}
    (hstep : ∀ past e s' i', M.Fires e → G past e → R past e.before s' →
      In e.input i' → ∃ t', M.step s' i' = some (e.output, t') ∧
        R (past ++ [e]) e.after t')
    {s s' t : σ} {is is' : List ι} {es : List (Event σ ι ο)}
    (hin : List.Forall₂ In is is') (h : M.run s is = some (es, t))
    (hG : ∀ past e rest, es = past ++ e :: rest → G past e) (hs : R [] s s') :
    ∃ es' t', M.run s' is' = some (es', t') ∧
      List.Forall₂ (fun e e' => e.output = e'.output ∧
        ∃ past, R past e.after e'.after) es es' := by
  induction hin generalizing s s' es R G with
  | nil =>
      obtain ⟨rfl, -⟩ := by simpa using h
      exact ⟨[], s', rfl, List.Forall₂.nil⟩
  | @cons i i' is is' hhead _ ih =>
      obtain ⟨o, u, tail, hfirst, hrest, rfl⟩ := run_cons_cases h
      obtain ⟨u', hfirst', hu⟩ := hstep [] ⟨s, i, o, u⟩ s' i' hfirst
        (hG [] _ tail rfl) hs hhead
      -- The later events are judged with the first one in their past.
      obtain ⟨es', t', hrun', hevents⟩ := ih
        (R := fun past => R (⟨s, i, o, u⟩ :: past))
        (G := fun past => G (⟨s, i, o, u⟩ :: past))
        (fun past e s' i' => hstep (_ :: past) e s' i') hrest
        (fun past e rest heq => hG (_ :: past) e rest (by rw [heq]; rfl)) hu
      refine ⟨_, t', run_cons hfirst' hrun', ?_⟩
      exact List.Forall₂.cons ⟨rfl, _, hu⟩
        (hevents.imp fun e e' ⟨hout, past, hR⟩ => ⟨hout, _, hR⟩)

/-- A run and the run without some of its inputs.  When the inputs left out do
not show in the relation, and the others are answered on both sides, both runs
exist and end in related states. -/
theorem run_filter {M : Machine σ ι ο} {R : σ → σ → Prop} {P : ι → Prop}
    {keep : ι → Bool}
    (hkept : ∀ s s' i, R s s' → P i → keep i = true →
      ∃ o t o' t', M.step s i = some (o, t) ∧ M.step s' i = some (o', t') ∧
        R t t')
    (hleft : ∀ s s' i, R s s' → P i → keep i = false →
      ∃ o t, M.step s i = some (o, t) ∧ R t s')
    {s s' : σ} {is : List ι} (his : ∀ i ∈ is, P i) (hR : R s s') :
    ∃ es t es' t', M.run s is = some (es, t) ∧
      M.run s' (is.filter keep) = some (es', t') ∧ R t t' := by
  induction is generalizing s s' with
  | nil => exact ⟨[], s, [], s', rfl, rfl, hR⟩
  | cons i is ih =>
      have hi := his i List.mem_cons_self
      have hrest := fun j hj => his j (List.mem_cons_of_mem _ hj)
      cases hkeep : keep i with
      | true =>
          obtain ⟨o, t, o', t', hstep, hstep', hafter⟩ := hkept s s' i hR hi hkeep
          obtain ⟨es, u, es', u', hrun, hrun', hlast⟩ := ih hrest hafter
          refine ⟨_, u, ⟨s', i, o', t'⟩ :: es', u', run_cons hstep hrun, ?_, hlast⟩
          rw [List.filter_cons_of_pos hkeep]
          exact run_cons hstep' hrun'
      | false =>
          obtain ⟨o, t, hstep, hafter⟩ := hleft s s' i hR hi hkeep
          obtain ⟨es, u, es', u', hrun, hrun', hlast⟩ := ih hrest hafter
          refine ⟨_, u, es', u', run_cons hstep hrun, ?_, hlast⟩
          rw [List.filter_cons_of_neg (by simp [hkeep])]
          exact hrun'

/-- A list whose elements all have a partner has a list of partners. -/
theorem exists_partners {α β γ : Type} {R : α → β → Prop} {p : β → Prop}
    {f : α → Option γ} {g : β → Option γ} {as : List α}
    (h : ∀ a ∈ as, ∃ b, R a b ∧ p b ∧ g b = f a) :
    ∃ bs, List.Forall₂ R as bs ∧ (∀ b ∈ bs, p b) ∧
      bs.filterMap g = as.filterMap f := by
  induction as with
  | nil => exact ⟨[], List.Forall₂.nil, by simp, rfl⟩
  | cons a as ih =>
      obtain ⟨b, hab, hb, heq⟩ := h a List.mem_cons_self
      obtain ⟨bs, hbs, hps, heqs⟩ :=
        ih fun a' ha' => h a' (List.mem_cons_of_mem _ ha')
      refine ⟨b :: bs, List.Forall₂.cons hab hbs, ?_, ?_⟩
      · intro b' hb'
        rcases List.mem_cons.mp hb' with rfl | hb'
        · exact hb
        · exact hps b' hb'
      · simp [List.filterMap_cons, heq, heqs]

/-! ## Events that happen at most once -/

/-- Once `closed` holds it stays, and then no further event is counted. -/
theorem run_countP_eq_zero {M : Machine σ ι ο} {G : Event σ ι ο → Prop}
    {closed : σ → Prop} {counted : Event σ ι ο → Bool}
    (hkeep : M.Preserves G closed)
    (hopen : ∀ e, M.Fires e → G e → counted e = true → ¬ closed e.before)
    {s t : σ} {is : List ι} {es : List (Event σ ι ο)}
    (h : M.run s is = some (es, t)) (hG : ∀ e ∈ es, G e) (hs : closed s) :
    es.countP counted = 0 := by
  rw [List.countP_eq_zero]
  intro e he hcounted
  have hclosed := ((run_invariant hkeep h hG hs).2 e he).1
  exact hopen e (run_fires h e he) (hG e he) hcounted hclosed

/-- An event that needs `closed` to be false and makes it true for good
happens at most once. -/
theorem run_countP_le_one {M : Machine σ ι ο} {G : Event σ ι ο → Prop}
    {I closed : σ → Prop} {counted : Event σ ι ο → Bool}
    (hI : M.Preserves G I)
    (hkeep : M.Preserves (fun e => G e ∧ I e.before) closed)
    (hopen : ∀ e, M.Fires e → G e → I e.before →
      counted e = true → ¬ closed e.before)
    (hclose : ∀ e, M.Fires e → G e → I e.before →
      counted e = true → closed e.after)
    {s t : σ} {is : List ι} {es : List (Event σ ι ο)}
    (h : M.run s is = some (es, t)) (hG : ∀ e ∈ es, G e) (hs : I s) :
    es.countP counted ≤ 1 := by
  induction is generalizing s es with
  | nil =>
      obtain ⟨rfl, -⟩ := by simpa using h
      simp
  | cons i is ih =>
      obtain ⟨o, s', rest, hstep, hrest, rfl⟩ := run_cons_cases h
      have hG₀ := hG ⟨s, i, o, s'⟩ (by simp)
      have hGrest : ∀ e ∈ rest, G e := fun e he =>
        hG e (List.mem_cons_of_mem _ he)
      have hs' : I s' := hI ⟨s, i, o, s'⟩ hstep hG₀ hs
      by_cases hcounted : counted ⟨s, i, o, s'⟩ = true
      · have hclosed : closed s' :=
          hclose ⟨s, i, o, s'⟩ hstep hG₀ hs hcounted
        have hIrest := (run_invariant hI hrest hGrest hs').2
        have hzero : rest.countP counted = 0 :=
          run_countP_eq_zero hkeep
            (fun e hfires hGI hc => hopen e hfires hGI.1 hGI.2 hc) hrest
            (fun e he => ⟨hGrest e he, (hIrest e he).1⟩) hclosed
        rw [List.countP_cons_of_pos hcounted, hzero]
      · rw [List.countP_cons_of_neg hcounted]
        exact ih hrest hGrest hs'

/-! ## Coming to an end -/

section Ending

variable {β : Type} [PartialOrder β] [WellFoundedLT β] {M : Machine σ ι ο}
  {I : σ → Prop} {μ : σ → β}

/-- While something is left to do some input does a part of it, so there are
inputs after which nothing is left. -/
theorem exists_run_of_lt {Done : σ → Prop} {P : ι → Prop}
    (hstep : ∀ s, I s → ¬ Done s → ∃ i o s', P i ∧
      M.step s i = some (o, s') ∧ I s' ∧ μ s' < μ s) (s : σ) (hs : I s) :
    ∃ is es t, (∀ i ∈ is, P i) ∧ M.run s is = some (es, t) ∧ I t ∧ Done t := by
  induction hμ : μ s using WellFoundedLT.induction generalizing s with
  | ind b ih =>
      by_cases hdone : Done s
      · exact ⟨[], [], s, by simp, rfl, hs, hdone⟩
      · obtain ⟨i, o, s', hi, hfirst, hs', hlt⟩ := hstep s hs hdone
        rw [hμ] at hlt
        obtain ⟨is, es, t, his, hrest, ht, hend⟩ := ih _ hlt s' hs' rfl
        refine ⟨i :: is, ⟨s, i, o, s'⟩ :: es, t, ?_, ?_, ht, hend⟩
        · intro j hj
          rcases List.mem_cons.mp hj with rfl | hj
          · exact hi
          · exact his j hj
        · exact run_cons hfirst hrest

/-- An infinite run in which no step adds to what is left to do takes only
finitely many of the inputs that do a part of it. -/
theorem eventually_not {P Q : ι → Prop}
    (hkeep : ∀ s i o s', I s → P i → M.step s i = some (o, s') →
      I s' ∧ μ s' ≤ μ s ∧ (Q i → μ s' < μ s))
    {state : ℕ → σ} {input : ℕ → ι} (hstart : I (state 0))
    (hinput : ∀ n, P (input n))
    (hrun : ∀ n, ∃ o, M.step (state n) (input n) = some (o, state (n + 1))) :
    ∃ n, ∀ m, n ≤ m → ¬ Q (input m) := by
  have hinvariant : ∀ n, I (state n) := by
    intro n
    induction n with
    | zero => exact hstart
    | succ n ih =>
        obtain ⟨o, hfires⟩ := hrun n
        exact (hkeep _ _ _ _ ih (hinput n) hfires).1
  have hsteps : ∀ n, μ (state (n + 1)) ≤ μ (state n) ∧
      (Q (input n) → μ (state (n + 1)) < μ (state n)) := by
    intro n
    obtain ⟨o, hfires⟩ := hrun n
    exact (hkeep _ _ _ _ (hinvariant n) (hinput n) hfires).2
  have hantitone : Antitone fun n => μ (state n) :=
    antitone_nat_of_succ_le fun n => (hsteps n).1
  obtain ⟨n, hconstant⟩ := WellFoundedLT.antitone_chain_condition hantitone
  refine ⟨n, fun m hm hQ => ?_⟩
  have hlt := (hsteps m).2 hQ
  rw [← hconstant m hm, ← hconstant (m + 1) (Nat.le_succ_of_le hm)] at hlt
  exact lt_irrefl _ hlt

end Ending

end Machine
