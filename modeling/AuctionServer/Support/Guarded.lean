import AuctionServer.Support.Refinement

/-!
# Calls behind one lock

Threads issue calls that work on a shared state step by step.  A thread holds
the lock from the first step of its call to the last; between any two steps
the environment may disturb the shared state, and a crash may lose every
thread.  What the threads do is a run of a machine that answers whole calls: a
disturbance in the middle of a call counts as having come before the call, and
a crash in the middle of one as having come before it too, or after a call
with another end.
-/

open Relation (ReflTransGen)

/-- Calls in steps, in an environment.  `start` is the first local state of a
call; `step` is what a step does to the shared state and the local one, given
what it meets, or the result that ends the call, and `none` where it is
undefined. -/
structure Guarded (σ κ ω l ρ δ χ : Type) where
  start : κ → l
  step : σ → l → ω → Option (σ × (l ⊕ ρ))
  disturb : δ → σ → σ
  crash : χ → σ → Option σ

namespace Guarded

variable {σ κ ω l ρ δ χ : Type}

/-- One step that does not end the call. -/
def Goes (G : Guarded σ κ ω l ρ δ χ) (a b : σ × l) : Prop :=
  ∃ o, G.step a.1 a.2 o = some (b.1, .inl b.2)

/-- The call comes to its end. -/
inductive Returns (G : Guarded σ κ ω l ρ δ χ) : σ → l → ρ → σ → Prop
  | last {s t : σ} {m : l} {o : ω} {r : ρ}
      (hstep : G.step s m o = some (t, .inr r)) : Returns G s m r t
  | goes {s s' t : σ} {m m' : l} {o : ω} {r : ρ}
      (hstep : G.step s m o = some (s', .inl m'))
      (hrest : Returns G s' m' r t) : Returns G s m r t

variable {G : Guarded σ κ ω l ρ δ χ}

theorem Returns.of_within {a b : σ × l} {r : ρ} {t : σ}
    (hwithin : ReflTransGen G.Goes a b) (h : G.Returns b.1 b.2 r t) :
    G.Returns a.1 a.2 r t := by
  induction hwithin using ReflTransGen.head_induction_on with
  | refl => exact h
  | head hfirst _ ih =>
      obtain ⟨o, hstep⟩ := hfirst
      exact .goes hstep ih

/-! ## The threads -/

/-- The shared state, the threads that wait with a call, and the one that
holds the lock with the call it makes and its local state. -/
structure Threads (σ κ l : Type) where
  shared : σ
  waiting : ℕ → Option κ
  holder : Option (ℕ × κ × l)

/-- No thread has made a call yet. -/
def begin (s : σ) : Threads σ κ l where
  shared := s
  waiting := fun _ => none
  holder := none

/-- A thread issues a call, or takes the lock; the thread that holds it makes
its next step; the environment acts. -/
inductive Turn (κ ω δ χ : Type) where
  | call (i : ℕ) (c : κ)
  | enter (i : ℕ)
  | advance (o : ω)
  | disturb (d : δ)
  | crash (x : χ)

/-- What a turn comes to. -/
inductive Outcome (κ ρ δ χ : Type) where
  | going
  | returned (i : ℕ) (c : κ) (r : ρ)
  | disturbed (d : δ)
  | crashed (x : χ)

/-- The threads as a machine.  A call that returns releases the lock; a crash
leaves no thread. -/
def machine (G : Guarded σ κ ω l ρ δ χ) :
    Machine (Threads σ κ l) (Turn κ ω δ χ) (Outcome κ ρ δ χ) where
  step s
    | .call i c =>
        if (s.waiting i).isNone && !s.holder.any (fun h => h.1 == i) then
          some (.going,
            { s with waiting := Function.update s.waiting i (some c) })
        else none
    | .enter i =>
        match s.holder, s.waiting i with
        | none, some c =>
            some (.going,
              { s with
                waiting := Function.update s.waiting i none
                holder := some (i, c, G.start c) })
        | _, _ => none
    | .advance o =>
        match s.holder with
        | none => none
        | some (i, c, m) =>
            match G.step s.shared m o with
            | none => none
            | some (shared, .inl m') =>
                some (.going, { s with shared, holder := some (i, c, m') })
            | some (shared, .inr r) =>
                some (.returned i c r, { s with shared, holder := none })
    | .disturb d =>
        some (.disturbed d, { s with shared := G.disturb d s.shared })
    | .crash x =>
        (G.crash x s.shared).map fun shared => (.crashed x, begin shared)

/-- A recorded turn. -/
abbrev Event (σ κ ω l ρ δ χ : Type) :=
  Machine.Event (Threads σ κ l) (Turn κ ω δ χ) (Outcome κ ρ δ χ)

/-- What a turn can do: it leaves the shared state and the holder alone, or
gives the lock to a thread, or is a step of the holder, or of the environment. -/
inductive Moves (G : Guarded σ κ ω l ρ δ χ) (turn : Turn κ ω δ χ) :
    Threads σ κ l → Outcome κ ρ δ χ → Threads σ κ l → Prop
  | issues (s : Threads σ κ l) (i : ℕ) (c : κ) (waiting : ℕ → Option κ)
      (hturn : turn = .call i c) :
      Moves G turn s .going { s with waiting }
  | enters (s : Threads σ κ l) (i : ℕ) (c : κ) (waiting : ℕ → Option κ)
      (hfree : s.holder = none) (hturn : turn = .enter i) :
      Moves G turn s .going { s with waiting, holder := some (i, c, G.start c) }
  | goes (s : Threads σ κ l) (i : ℕ) (c : κ) (m : l) (o : ω) (shared : σ)
      (m' : l) (hholder : s.holder = some (i, c, m))
      (hstep : G.step s.shared m o = some (shared, .inl m')) :
      Moves G turn s .going { s with shared, holder := some (i, c, m') }
  | returns (s : Threads σ κ l) (i : ℕ) (c : κ) (m : l) (o : ω) (shared : σ)
      (r : ρ) (hholder : s.holder = some (i, c, m))
      (hstep : G.step s.shared m o = some (shared, .inr r)) :
      Moves G turn s (.returned i c r) { s with shared, holder := none }
  | disturbs (s : Threads σ κ l) (d : δ) (hturn : turn = .disturb d) :
      Moves G turn s (.disturbed d) { s with shared := G.disturb d s.shared }
  | crashes (s : Threads σ κ l) (x : χ) (shared : σ)
      (hturn : turn = .crash x) (hcrash : G.crash x s.shared = some shared) :
      Moves G turn s (.crashed x) (begin shared)

/-- A turn is one of these moves. -/
theorem moves_of_fires {e : Event σ κ ω l ρ δ χ} (h : G.machine.Fires e) :
    Moves G e.input e.before e.output e.after := by
  obtain ⟨s, turn, out, t⟩ := e
  change G.machine.step s turn = some (out, t) at h
  cases turn with
  | call i c =>
      simp only [machine] at h
      split at h
      · cases h
        exact .issues s i c _ rfl
      · cases h
  | enter i =>
      simp only [machine] at h
      split at h
      · next c hfree hwaiting =>
          cases h
          exact .enters s i c _ hfree rfl
      · cases h
  | advance o =>
      simp only [machine] at h
      split at h
      · cases h
      · next i c m hholder =>
          split at h
          · cases h
          · next shared m' hstep =>
              cases h
              exact .goes s i c m o shared m' hholder hstep
          · next shared r hstep =>
              cases h
              exact .returns s i c m o shared r hholder hstep
  | disturb d =>
      cases h
      exact .disturbs s d rfl
  | crash x =>
      obtain ⟨shared, hcrash, heq⟩ := Option.map_eq_some_iff.mp h
      cases heq
      exact .crashes s x shared rfl hcrash

/-! ## One call after the other -/

section Serial

variable {ι ο : Type} {M : Machine σ ι ο} {Answers : κ → ρ → ι → ο → Prop}
  {Disturbs : δ → ι → ο → Prop} {Crashes : χ → ι → ο → Prop}

/-- The machine answers whole calls as they are made step by step, and has the
acts of the environment as inputs of its own. -/
structure Implements (G : Guarded σ κ ω l ρ δ χ) (M : Machine σ ι ο)
    (Answers : κ → ρ → ι → ο → Prop) (Disturbs : δ → ι → ο → Prop)
    (Crashes : χ → ι → ο → Prop) : Prop where
  whole : ∀ s c r t, G.Returns s (G.start c) r t →
    ∃ i o, Answers c r i o ∧ M.step s i = some (o, t)
  disturbed : ∀ s d, ∃ i o, Disturbs d i o ∧ M.step s i = some (o, G.disturb d s)
  crashed : ∀ s x t, G.crash x s = some t →
    ∃ i o, Crashes x i o ∧ M.step s i = some (o, t)
  /-- A disturbance before a step that goes on does what it does after it. -/
  moves : ∀ s m o s' m' d, G.step s m o = some (s', .inl m') →
    G.step (G.disturb d s) m o = some (G.disturb d s', .inl m')
  /-- A crash in the middle of a call leaves what it leaves before the call, or
  after the call with some end. -/
  abandoned : ∀ s c a x t, ReflTransGen G.Goes (s, G.start c) a →
    G.crash x a.1 = some t →
    G.crash x s = some t ∨
      ∃ r u, G.Returns a.1 a.2 r u ∧ G.crash x u = some t

/-- What the machine does for a turn: nothing until a call returns, then the
whole call, in a state with property `K`.  Before a crash it may have to do the
call that is being made. -/
def Meets (Answers : κ → ρ → ι → ο → Prop) (Disturbs : δ → ι → ο → Prop)
    (Crashes : χ → ι → ο → Prop) (K : σ → Prop) (e : Event σ κ ω l ρ δ χ)
    (part : List (Machine.Event σ ι ο)) : Prop :=
  match e.output with
  | .going => part = []
  | .returned _ c r =>
      ∃ e', part = [e'] ∧ Answers c r e'.input e'.output ∧ K e'.before
  | .disturbed d => ∃ e', part = [e'] ∧ Disturbs d e'.input e'.output
  | .crashed x =>
      ∃ cut e', part = cut ++ [e'] ∧ Crashes x e'.input e'.output ∧
        (cut = [] ∨ ∃ i c m r call, e.before.holder = some (i, c, m) ∧
          cut = [call] ∧ Answers c r call.input call.output ∧ K call.before)

/-- The state of the machine when the lock is free is the shared one; while a
call is being made, the call began in it, and it has property `K`. -/
def Stands (G : Guarded σ κ ω l ρ δ χ) (K : σ → Prop) (s : Threads σ κ l)
    (u : σ) : Prop :=
  match s.holder with
  | none => s.shared = u
  | some (_, c, m) => K u ∧ ReflTransGen G.Goes (u, G.start c) (s.shared, m)

variable {K : σ → Prop} {s : Threads σ κ l} {u : σ}

theorem stands_free (hfree : s.holder = none) : Stands G K s u ↔ s.shared = u := by
  simp [Stands, hfree]

theorem stands_held {i : ℕ} {c : κ} {m : l} (hholder : s.holder = some (i, c, m)) :
    Stands G K s u ↔
      K u ∧ ReflTransGen G.Goes (u, G.start c) (s.shared, m) := by
  simp [Stands, hholder]

/-- A disturbance moves to before the call. -/
theorem Implements.within_disturb (h : Implements G M Answers Disturbs Crashes)
    (d : δ) {a b : σ × l} (hwithin : ReflTransGen G.Goes a b) :
    ReflTransGen G.Goes (G.disturb d a.1, a.2) (G.disturb d b.1, b.2) := by
  induction hwithin with
  | refl => exact .refl
  | tail _ hlast ih =>
      obtain ⟨o, hstep⟩ := hlast
      exact ih.tail ⟨o, h.moves _ _ _ _ _ d hstep⟩

/-- The shared state has the property when a thread takes the lock. -/
def Taken (K : σ → Prop) (e : Event σ κ ω l ρ δ χ) : Prop :=
  ∀ i, e.input = .enter i → K e.before.shared

/-- One turn is met by a run of the machine. -/
theorem Implements.turn (h : Implements G M Answers Disturbs Crashes)
    (hkept : ∀ s d, K s → K (G.disturb d s)) (e : Event σ κ ω l ρ δ χ) (u : σ)
    (hfires : G.machine.Fires e) (htaken : Taken K e)
    (hstands : Stands G K e.before u) :
    ∃ is es u', M.run u is = some (es, u') ∧
      Meets Answers Disturbs Crashes K e es ∧ Stands G K e.after u' := by
  obtain ⟨s, turn, out, t⟩ := e
  have hmoves := moves_of_fires hfires
  dsimp only at hstands hmoves ⊢
  cases hmoves with
  | issues i c waiting _ => exact ⟨[], [], u, rfl, rfl, hstands⟩
  | enters i c waiting hfree hturn =>
      rw [stands_free hfree] at hstands
      obtain rfl := hstands
      exact ⟨[], [], s.shared, rfl, rfl, htaken i hturn, .refl⟩
  | goes i c m o shared m' hholder hstep =>
      obtain ⟨hK, hwithin⟩ := (stands_held hholder).mp hstands
      exact ⟨[], [], u, rfl, rfl, hK, hwithin.tail ⟨o, hstep⟩⟩
  | returns i c m o shared r hholder hstep =>
      obtain ⟨hK, hwithin⟩ := (stands_held hholder).mp hstands
      have hreturns : G.Returns u (G.start c) r shared :=
        Returns.of_within hwithin (.last hstep)
      obtain ⟨input, o', hanswers, hwhole⟩ := h.whole u c r shared hreturns
      exact ⟨[input], _, shared, Machine.run_singleton hwhole,
        ⟨_, rfl, hanswers, hK⟩, rfl⟩
  | disturbs d _ =>
      obtain ⟨input, o', hdisturbs, hstep⟩ := h.disturbed u d
      refine ⟨[input], _, G.disturb d u, Machine.run_singleton hstep,
        ⟨_, rfl, hdisturbs⟩, ?_⟩
      cases hholder : s.holder with
      | none =>
          rw [stands_free hholder] at hstands
          exact congrArg (G.disturb d) hstands
      | some held =>
          obtain ⟨i, c, m⟩ := held
          obtain ⟨hK, hwithin⟩ := (stands_held hholder).mp hstands
          exact ⟨hkept u d hK, h.within_disturb d hwithin⟩
  | crashes x shared _ hcrash =>
      cases hholder : s.holder with
      | none =>
          rw [stands_free hholder] at hstands
          rw [hstands] at hcrash
          obtain ⟨input, o', hcrashes, hstep⟩ := h.crashed u x shared hcrash
          exact ⟨[input], _, shared, Machine.run_singleton hstep,
            ⟨[], _, rfl, hcrashes, .inl rfl⟩, rfl⟩
      | some held =>
          obtain ⟨i, c, m⟩ := held
          obtain ⟨hK, hwithin⟩ := (stands_held hholder).mp hstands
          rcases h.abandoned u c _ x shared hwithin hcrash with
            hbefore | ⟨r, v, hreturns, hafter⟩
          · obtain ⟨input, o', hcrashes, hstep⟩ := h.crashed u x shared hbefore
            exact ⟨[input], _, shared, Machine.run_singleton hstep,
              ⟨[], _, rfl, hcrashes, .inl rfl⟩, rfl⟩
          · obtain ⟨input, o', hcrashes, hstep⟩ := h.crashed v x shared hafter
            obtain ⟨call, answer, hanswers, hwhole⟩ :=
              h.whole u c r v (Returns.of_within hwithin hreturns)
            exact ⟨[call, input], _, shared, Machine.run_pair hwhole hstep,
              ⟨[_], _, rfl, hcrashes, .inr ⟨i, c, m, r, _, hholder, rfl,
                hanswers, hK⟩⟩, rfl⟩

/-- The turns of any number of threads are met by a run of the machine.  What
holds of the shared state whenever a thread takes the lock holds where the
machine makes the calls. -/
theorem Implements.run (h : Implements G M Answers Disturbs Crashes)
    (hkept : ∀ s d, K s → K (G.disturb d s)) {s : σ}
    {turns : List (Turn κ ω δ χ)} {es : List (Event σ κ ω l ρ δ χ)}
    {t : Threads σ κ l} (hrun : G.machine.run (begin s) turns = some (es, t))
    (htaken : ∀ e ∈ es, Taken K e) :
    ∃ parts u, List.Forall₂ (Meets Answers Disturbs Crashes K) es parts ∧
      M.run s (parts.flatten.map Machine.Event.input) =
        some (parts.flatten, u) ∧ Stands G K t u :=
  Machine.run_simulates (h.turn hkept) hrun htaken rfl

end Serial

/-! ## Leaving the lock -/

section Leaving

variable {β : Type} [PartialOrder β] [WellFoundedLT β] {μ : l → β}

/-- What is left of the call that is being made. -/
def remaining (μ : l → β) (s : Threads σ κ l) : WithBot β :=
  (s.holder.map fun h => μ h.2.2 : Option β)

omit [WellFoundedLT β] in
/-- No turn but taking the lock adds to what is left, and a step of the holder
takes something away. -/
theorem remaining_le
    (hstep : ∀ s m o s' m', G.step s m o = some (s', .inl m') → μ m' < μ m)
    {e : Event σ κ ω l ρ δ χ} (hfires : G.machine.Fires e)
    (henter : ∀ i, e.input ≠ .enter i) :
    remaining μ e.after ≤ remaining μ e.before ∧
      ((∃ o, e.input = .advance o) →
        remaining μ e.after < remaining μ e.before) := by
  obtain ⟨s, turn, out, t⟩ := e
  have hmoves := moves_of_fires hfires
  dsimp only at henter hmoves ⊢
  cases hmoves with
  | issues i c waiting hturn =>
      refine ⟨le_rfl, ?_⟩
      rintro ⟨o, hadvance⟩
      cases hturn.symm.trans hadvance
  | enters i c waiting hfree hturn => exact (henter i hturn).elim
  | goes i c m o shared m' hholder hgoes =>
      have hlt : remaining μ { s with shared, holder := some (i, c, m') } <
          remaining μ s := by
        simp only [remaining, hholder, Option.map_some]
        exact WithBot.coe_lt_coe.mpr (hstep _ _ _ _ _ hgoes)
      exact ⟨hlt.le, fun _ => hlt⟩
  | returns i c m o shared r hholder _ =>
      have hlt : remaining μ { s with shared, holder := none } < remaining μ s := by
        simp only [remaining, hholder, Option.map_some]
        exact WithBot.bot_lt_coe _
      exact ⟨hlt.le, fun _ => hlt⟩
  | disturbs d hturn =>
      refine ⟨le_rfl, ?_⟩
      rintro ⟨o, hadvance⟩
      cases hturn.symm.trans hadvance
  | crashes x shared hturn hcrash =>
      refine ⟨bot_le, ?_⟩
      rintro ⟨o, hadvance⟩
      cases hturn.symm.trans hadvance

/-- When threads keep making steps, they keep taking the lock: no call is made
for ever. -/
theorem enters_again
    (hstep : ∀ s m o s' m', G.step s m o = some (s', .inl m') → μ m' < μ m)
    {state : ℕ → Threads σ κ l} {turn : ℕ → Turn κ ω δ χ}
    (hrun : ∀ n, ∃ out, G.machine.step (state n) (turn n) =
      some (out, state (n + 1)))
    (hsteps : ∀ n, ∃ k, n ≤ k ∧ ∃ o, turn k = .advance o) (n : ℕ) :
    ∃ k, n ≤ k ∧ ∃ i, turn k = .enter i := by
  by_contra hnever
  have hturns : ∀ k i, turn (n + k) ≠ .enter i := fun k i heq =>
    hnever ⟨n + k, Nat.le_add_right n k, i, heq⟩
  have hkeep : ∀ s turn out t, True → (∀ i, turn ≠ .enter i) →
      G.machine.step s turn = some (out, t) →
        True ∧ remaining μ t ≤ remaining μ s ∧
          ((∃ o, turn = .advance o) → remaining μ t < remaining μ s) :=
    fun s turn out t _ hturn hfires =>
      ⟨trivial, @remaining_le σ κ ω l ρ δ χ G β _ μ hstep ⟨s, turn, out, t⟩
        hfires hturn⟩
  obtain ⟨k, hlater⟩ := Machine.eventually_not hkeep trivial hturns
    fun k => hrun (n + k)
  obtain ⟨j, hj, hadvance⟩ := hsteps (n + k)
  have hlast := hlater (j - n) (by omega)
  rw [Nat.add_sub_cancel' (by omega)] at hlast
  exact hlast hadvance

/-- When every step after the first is defined, a thread whose next step is
defined leaves the lock, whatever its steps meet. -/
theorem exists_leaves
    (hstep : ∀ s m o s' m', G.step s m o = some (s', .inl m') → μ m' < μ m)
    (hdefined : ∀ s m o s' m' o', G.step s m o = some (s', .inl m') →
      (G.step s' m' o').isSome) {i : ℕ} {c : κ} (m : l) (s : Threads σ κ l)
    (hholder : s.holder = some (i, c, m)) (o : ℕ → ω)
    (hfirst : (G.step s.shared m (o 0)).isSome) :
    ∃ n es t, G.machine.run s ((List.range n).map fun k => .advance (o k)) =
        some (es, t) ∧ t.holder = none ∧ t.waiting = s.waiting ∧
      ∃ r, ∃ e ∈ es, e.output = .returned i c r := by
  induction hμ : μ m using WellFoundedLT.induction generalizing m s o with
  | ind b ih =>
      subst hμ
      obtain ⟨⟨shared, next⟩, hfires⟩ := Option.isSome_iff_exists.mp hfirst
      cases next with
      | inr r =>
          have hturn : G.machine.step s (.advance (o 0)) =
              some (.returned i c r, { s with shared, holder := none }) := by
            simp [machine, hholder, hfires]
          exact ⟨1, _, _, Machine.run_singleton hturn, rfl, rfl, r, _,
            List.mem_singleton_self _, rfl⟩
      | inl m' =>
          have hturn : G.machine.step s (.advance (o 0)) =
              some (.going, { s with shared, holder := some (i, c, m') }) := by
            simp [machine, hholder, hfires]
          obtain ⟨n, es, t, hrun, hfree, hwaiting, r, e, he, hout⟩ :=
            ih (μ m') (hstep _ _ _ _ _ hfires) m'
              { s with shared, holder := some (i, c, m') } rfl
              (fun k => o (k + 1)) (hdefined _ _ _ _ _ (o 1) hfires) rfl
          let going : Event σ κ ω l ρ δ χ :=
            ⟨s, .advance (o 0), .going,
              { s with shared, holder := some (i, c, m') }⟩
          refine ⟨n + 1, going :: es, t, ?_, hfree, hwaiting, r, e,
            List.mem_cons_of_mem _ he, hout⟩
          rw [List.range_succ_eq_map, List.map_cons, List.map_map]
          exact Machine.run_cons hturn hrun

end Leaving

end Guarded
