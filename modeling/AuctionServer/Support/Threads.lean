import AuctionServer.Support.Machine

/-!
# Interleaved calls

A routine is a call that works on a shared state in steps of its own, with a
local state between them.  Any number of threads issue calls of the routine
and their steps interleave in any order; the machine below has one input for
each such step.  An assertion about the shared state and assertions about the
local states hold throughout, when every step keeps the first, establishes its
own, and does not interfere with those of the other threads.
-/

/-- A call in steps: its first local state, and what one step does to the
shared state and to the local one, or the result that ends the call. -/
structure Routine (σ κ ω l ρ : Type) where
  start : κ → l
  step : σ → l → ω → σ × (l ⊕ ρ)

namespace Routine

variable {σ κ ω l ρ : Type}

/-- The call alone, given what it meets at its successive steps. -/
def alone (R : Routine σ κ ω l ρ) : σ → l → List ω → Option (ρ × σ)
  | _, _, [] => none
  | s, m, o :: os =>
      match R.step s m o with
      | (s', .inr r) => some (r, s')
      | (s', .inl m') => R.alone s' m' os

/-- The shared state, and the local state of each thread that is in a call. -/
structure Threads (σ l : Type) where
  shared : σ
  locals : ℕ → Option l

/-- No thread is in a call. -/
def Threads.Idle (s : Threads σ l) : Prop :=
  ∀ i, s.locals i = none

/-- No thread has made a call yet. -/
def begin (s : σ) : Threads σ l where
  shared := s
  locals := fun _ => none

/-- A thread issues a call, or makes the next step of its call. -/
inductive Turn (κ ω : Type) where
  | call (i : ℕ) (c : κ)
  | advance (i : ℕ) (o : ω)

/-- What a turn comes to. -/
inductive Progress (ρ : Type) where
  | going
  | returned (r : ρ)

/-- The threads as a machine.  A thread issues one call at a time. -/
def machine (R : Routine σ κ ω l ρ) :
    Machine (Threads σ l) (Turn κ ω) (Progress ρ) where
  step s
    | .call i c =>
        match s.locals i with
        | some _ => none
        | none =>
            some (.going,
              { s with locals := Function.update s.locals i (some (R.start c)) })
    | .advance i o =>
        match s.locals i with
        | none => none
        | some m =>
            match R.step s.shared m o with
            | (shared, .inl m') =>
                some (.going, ⟨shared, Function.update s.locals i (some m')⟩)
            | (shared, .inr r) =>
                some (.returned r, ⟨shared, Function.update s.locals i none⟩)

variable {R : Routine σ κ ω l ρ} {s t : Threads σ l} {p : Progress ρ}

theorem fires_call {i : ℕ} {c : κ} :
    R.machine.Fires ⟨s, .call i c, p, t⟩ ↔
      s.locals i = none ∧ p = .going ∧
        t = { s with locals := Function.update s.locals i (some (R.start c)) } := by
  change R.machine.step s (.call i c) = some (p, t) ↔ _
  cases hlocal : s.locals i with
  | none => simp [machine, hlocal, eq_comm]
  | some m => simp [machine, hlocal]

/-- A step takes the shared state and its own local state on, and leaves the
other threads where they are. -/
theorem fires_advance {i : ℕ} {o : ω} :
    R.machine.Fires ⟨s, .advance i o, p, t⟩ ↔
      ∃ m, s.locals i = some m ∧ t.shared = (R.step s.shared m o).1 ∧
        ((∃ m', (R.step s.shared m o).2 = .inl m' ∧ p = .going ∧
            t.locals = Function.update s.locals i (some m')) ∨
          ∃ r, (R.step s.shared m o).2 = .inr r ∧ p = .returned r ∧
            t.locals = Function.update s.locals i none) := by
  obtain ⟨shared, locals⟩ := t
  change R.machine.step s (.advance i o) = some (p, _) ↔ _
  cases hlocal : s.locals i with
  | none => simp [machine, hlocal]
  | some m =>
      rcases hstep : R.step s.shared m o with ⟨shared', m' | r⟩
      · simp [machine, hlocal, hstep, eq_comm, and_comm, and_left_comm]
      · simp [machine, hlocal, hstep, eq_comm, and_comm, and_left_comm]

/-- A thread that issues no call is in none. -/
theorem locals_eq_none {turns : List (Turn κ ω)}
    {es : List (Machine.Event (Threads σ l) (Turn κ ω) (Progress ρ))} {i : ℕ}
    (hrun : R.machine.run s turns = some (es, t)) (hs : s.locals i = none)
    (hturns : ∀ c, .call i c ∉ turns) : t.locals i = none := by
  have hkeep : R.machine.Preserves (fun e => ∀ c, e.input ≠ .call i c)
      (fun s => s.locals i = none) := by
    rintro ⟨s, turn, p, t⟩ hfires hother hnone
    cases turn with
    | call j c =>
        obtain ⟨-, -, rfl⟩ := fires_call.mp hfires
        have hne : i ≠ j := by
          rintro rfl
          exact hother c rfl
        exact (Function.update_of_ne hne _ _).trans hnone
    | advance j o =>
        obtain ⟨m, hm, -, hcases⟩ := fires_advance.mp hfires
        have hne : i ≠ j := by
          rintro rfl
          cases hnone.symm.trans hm
        rcases hcases with ⟨m', -, -, hlocals⟩ | ⟨r, -, -, hlocals⟩
        · exact (congrFun hlocals i).trans
            ((Function.update_of_ne hne _ _).trans hnone)
        · exact (congrFun hlocals i).trans
            ((Function.update_of_ne hne _ _).trans hnone)
  refine (Machine.run_invariant hkeep hrun ?_ hs).1
  intro e he c heq
  exact hturns c (heq ▸ Machine.run_input_mem hrun e he)

/-! ## Assertions -/

/-- The turns that are allowed: calls with property `C`, and steps with
property `P` of the shared state, the local state and what the step meets. -/
def Allowed (C : κ → Prop) (P : σ → l → ω → Prop)
    (e : Machine.Event (Threads σ l) (Turn κ ω) (Progress ρ)) : Prop :=
  match e.input with
  | .call _ c => C c
  | .advance i o =>
      ∀ m, e.before.locals i = some m → P e.before.shared m o

theorem allowed_all {C : κ → Prop} {P : σ → l → ω → Prop} (hC : ∀ c, C c)
    (hP : ∀ s m o, P s m o)
    (e : Machine.Event (Threads σ l) (Turn κ ω) (Progress ρ)) : Allowed C P e := by
  obtain ⟨s, turn, p, t⟩ := e
  cases turn with
  | call i c => exact hC c
  | advance i o => exact fun m _ => hP s.shared m o

theorem allowed_advance {C : κ → Prop} {P : σ → l → ω → Prop} {i : ℕ} {o : ω}
    {m : l} (hm : s.locals i = some m) :
    Allowed C P ⟨s, .advance i o, p, t⟩ ↔ P s.shared m o := by
  simp [Allowed, hm]

/-- The shared state satisfies `G`, and each thread in a call `A`. -/
structure Holds (G : σ → Prop) (A : σ → l → Prop) (s : Threads σ l) :
    Prop where
  shared : G s.shared
  locals : ∀ i m, s.locals i = some m → A s.shared m

theorem holds_begin {G : σ → Prop} {A : σ → l → Prop} {s : σ} (h : G s) :
    Holds G A (begin s) where
  shared := h
  locals := by
    intro i m hm
    cases hm

/-- Assertions that the allowed steps keep, without interfering with one
another, hold throughout a run. -/
theorem holds_preserves {C : κ → Prop} {P : σ → l → ω → Prop} {G : σ → Prop}
    {A : σ → l → Prop} (hstart : ∀ s c, G s → C c → A s (R.start c))
    (hshared : ∀ s m o, G s → A s m → P s m o → G (R.step s m o).1)
    (hown : ∀ s m o m', G s → A s m → P s m o →
      (R.step s m o).2 = .inl m' → A (R.step s m o).1 m')
    (hothers : ∀ s m o n, G s → A s m → P s m o → A s n →
      A (R.step s m o).1 n) :
    R.machine.Preserves (Allowed C P) (Holds G A) := by
  rintro ⟨s, turn, p, t⟩ hfires hallowed h
  cases turn with
  | call i c =>
      obtain ⟨-, -, rfl⟩ := fires_call.mp hfires
      refine ⟨h.shared, ?_⟩
      intro j m hm
      change Function.update s.locals i (some (R.start c)) j = some m at hm
      rcases eq_or_ne j i with rfl | hne
      · rw [Function.update_self] at hm
        obtain rfl := Option.some.inj hm
        exact hstart _ c h.shared hallowed
      · rw [Function.update_of_ne hne] at hm
        exact h.locals j m hm
  | advance i o =>
      obtain ⟨m, hm, hafter, hcases⟩ := fires_advance.mp hfires
      have hA := h.locals i m hm
      have hP := hallowed m hm
      refine ⟨hafter ▸ hshared _ m o h.shared hA hP, ?_⟩
      intro j n hn
      rw [hafter]
      rcases eq_or_ne j i with rfl | hne
      · rcases hcases with ⟨m', hnext, -, hlocals⟩ | ⟨r, -, -, hlocals⟩
        · rw [hlocals, Function.update_self] at hn
          obtain rfl := Option.some.inj hn
          exact hown _ m o _ h.shared hA hP hnext
        · rw [hlocals, Function.update_self] at hn
          cases hn
      · have hbefore : s.locals j = some n := by
          rcases hcases with ⟨m', -, -, hlocals⟩ | ⟨r, -, -, hlocals⟩
          · rwa [hlocals, Function.update_of_ne hne] at hn
          · rwa [hlocals, Function.update_of_ne hne] at hn
        exact hothers _ m o n h.shared hA hP (h.locals j n hbefore)

end Routine
