import Mathlib.Logic.Basic

/-!
# Programs with exceptions

A program runs on a state, and ends with a value or with an exception; the
state it had reached stays either way.  Where its behaviour is not defined it
has no end at all.

Statements about programs come with rules for sequence and for handlers.  A
program `Keeps` a part of the state; it `May` act on a part, at most once; it
acts exactly `Once` unless it raises an exception before.  Two programs that
run on related states leave them related (`Twin`).
-/

/-- A program over states `σ` that may raise exceptions `ε`. -/
def Program (ε σ α : Type) : Type :=
  σ → Option (Except ε α × σ)

namespace Program

variable {ε σ τ α β : Type}

/-! ## Programs -/

/-- Run a program, then the program its value asks for. -/
def andThen (p : Program ε σ α) (g : α → Program ε σ β) : Program ε σ β := fun s =>
  match p s with
  | none => none
  | some (.error e, s) => some (.error e, s)
  | some (.ok a, s) => g a s

instance : Monad (Program ε σ) where
  pure a := fun s => some (.ok a, s)
  bind := andThen

/-- Raise an exception. -/
def raise (e : ε) : Program ε σ α := fun s =>
  some (.error e, s)

/-- Go on with the value, or raise the exception. -/
def ofExcept (x : Except ε α) : Program ε σ α := fun s =>
  some (x, s)

/-- Look at the state. -/
def look (view : σ → α) : Program ε σ α := fun s =>
  some (.ok (view s), s)

/-- Change the state. -/
def change (f : σ → σ) : Program ε σ Unit := fun s =>
  some (.ok (), f s)

/-- `try` and `catch`. -/
def handle (p : Program ε σ α) (handler : ε → Program ε σ α) : Program ε σ α := fun s =>
  match p s with
  | none => none
  | some (.error e, s) => handler e s
  | some (.ok a, s) => some (.ok a, s)

/-- Run a program on a part of the state. -/
def within (part : σ → τ) (replace : σ → τ → σ) (p : Program ε τ α) :
    Program ε σ α := fun s =>
  (p (part s)).map fun (r, t) => (r, replace s t)

variable {p : Program ε σ α} {g : α → Program ε σ β} {s t : σ}

theorem bind_eq_some {r : Except ε β} :
    (p >>= g) s = some (r, t) ↔
      (∃ e, p s = some (.error e, t) ∧ r = .error e) ∨
        ∃ a s', p s = some (.ok a, s') ∧ g a s' = some (r, t) := by
  change andThen p g s = _ ↔ _
  constructor
  · intro h
    rw [andThen] at h
    split at h
    · cases h
    · next e s' hraised =>
        obtain ⟨rfl, rfl⟩ := Prod.mk.inj (Option.some.inj h)
        exact Or.inl ⟨e, hraised, rfl⟩
    · next a s' hvalue => exact Or.inr ⟨a, s', hvalue, h⟩
  · rintro (⟨e, hraised, rfl⟩ | ⟨a, s', hvalue, hrest⟩)
    · rw [andThen, hraised]
    · rw [andThen, hvalue]
      exact hrest

theorem handle_eq_some {handler : ε → Program ε σ α} {r : Except ε α} :
    handle p handler s = some (r, t) ↔
      (∃ a, p s = some (.ok a, t) ∧ r = .ok a) ∨
        ∃ e s', p s = some (.error e, s') ∧ handler e s' = some (r, t) := by
  constructor
  · intro h
    rw [handle] at h
    split at h
    · cases h
    · next e s' hraised => exact Or.inr ⟨e, s', hraised, h⟩
    · next a s' hvalue =>
        obtain ⟨rfl, rfl⟩ := Prod.mk.inj (Option.some.inj h)
        exact Or.inl ⟨a, hvalue, rfl⟩
  · rintro (⟨a, hvalue, rfl⟩ | ⟨e, s', hraised, hrest⟩)
    · rw [handle, hvalue]
    · rw [handle, hraised]
      exact hrest

theorem bind_of_ok {a : α} (h : p s = some (.ok a, t)) :
    (p >>= g) s = g a t := by
  change andThen p g s = _
  rw [andThen, h]

theorem bind_of_none (h : p s = none) : (p >>= g) s = none := by
  change andThen p g s = _
  rw [andThen, h]

theorem handle_bind_of_ok {a : α} (h : p s = some (.ok a, t))
    (handler : ε → Program ε σ β) :
    handle (p >>= g) handler s = handle (g a) handler t := by
  change handle (andThen p g) handler s = _
  rw [handle, handle, andThen, h]

theorem handle_bind_of_error {e : ε} (h : p s = some (.error e, t))
    (handler : ε → Program ε σ β) :
    handle (p >>= g) handler s = handler e t := by
  change handle (andThen p g) handler s = _
  rw [handle, andThen, h]

theorem handle_bind_of_none (h : p s = none) (handler : ε → Program ε σ β) :
    handle (p >>= g) handler s = none := by
  change handle (andThen p g) handler s = _
  rw [handle, andThen, h]

theorem ofExcept_ok_bind (a : α) :
    (ofExcept (.ok a) >>= g) = g a := rfl

theorem ofExcept_error_bind (e : ε) :
    (ofExcept (.error e) >>= g) = raise e := rfl

theorem look_bind (view : σ → α) :
    (look view >>= g) s = g (view s) s := rfl

theorem change_bind {f : σ → σ} {g : Unit → Program ε σ β} :
    (change f >>= g) s = g () (f s) := rfl

/-! ## Programs that keep a part of the state -/

/-- However the program ends, the part is what it was. -/
def Keeps (part : σ → τ) (p : Program ε σ α) : Prop :=
  ∀ s r t, p s = some (r, t) → part t = part s

variable {part : σ → τ}

theorem keeps_raise (e : ε) : Keeps part (raise e : Program ε σ α) := by
  rintro s r t ⟨⟩
  rfl

theorem keeps_ofExcept (x : Except ε α) : Keeps part (ofExcept x) := by
  rintro s r t ⟨⟩
  rfl

theorem keeps_look (view : σ → α) : Keeps part (look view : Program ε σ α) := by
  rintro s r t ⟨⟩
  rfl

theorem keeps_change {f : σ → σ} (h : ∀ s, part (f s) = part s) :
    Keeps part (change f : Program ε σ Unit) := by
  rintro s r t ⟨⟩
  exact h s

theorem Keeps.bind (hp : Keeps part p) (hg : ∀ a, Keeps part (g a)) :
    Keeps part (p >>= g) := by
  intro s r t h
  rcases bind_eq_some.mp h with ⟨e, hraised, -⟩ | ⟨a, s', hvalue, hrest⟩
  · exact hp s _ t hraised
  · exact (hg a s' r t hrest).trans (hp s _ s' hvalue)

theorem Keeps.ite {c : Prop} [Decidable c] {q : Program ε σ α}
    (hp : Keeps part p) (hq : Keeps part q) :
    Keeps part (if c then p else q) :=
  iteInduction (fun _ => hp) fun _ => hq

/-- A program that runs on one part keeps another. -/
theorem keeps_within {υ : Type} {other : σ → υ} {replace : σ → τ → σ}
    (h : ∀ s u, other (replace s u) = other s) (p : Program ε τ α) :
    Keeps other (within part replace p) := by
  intro s r t hrun
  obtain ⟨⟨r', u⟩, -, heq⟩ := Option.map_eq_some_iff.mp hrun
  cases heq
  exact h s u

/-! ## Programs that may act -/

/-- However the program ends, it has left the part alone or taken one step on
it. -/
def May (part : σ → τ) (act : τ → τ → Prop) (p : Program ε σ α) : Prop :=
  ∀ s r t, p s = some (r, t) → part t = part s ∨ act (part s) (part t)

variable {act : τ → τ → Prop}

theorem Keeps.may (h : Keeps part p) : May part act p :=
  fun s r t hrun => Or.inl (h s r t hrun)

theorem May.mono {act' : τ → τ → Prop} (h : May part act p)
    (hact : ∀ x y, act x y → act' x y) : May part act' p :=
  fun s r t hrun => (h s r t hrun).imp_right (hact _ _)

/-- What the program looks at in the part is so when it acts. -/
theorem look_bind_may {f : τ → α}
    (hg : ∀ a, May part (fun x y => f x = a → act x y) (g a)) :
    May part act (look (f ∘ part) >>= g) := by
  intro s r t h
  rw [look_bind] at h
  exact (hg (f (part s)) s r t h).imp_right fun hact => hact rfl

theorem May.bind_keeps (hp : May part act p) (hg : ∀ a, Keeps part (g a)) :
    May part act (p >>= g) := by
  intro s r t h
  rcases bind_eq_some.mp h with ⟨e, hraised, -⟩ | ⟨a, s', hvalue, hrest⟩
  · exact hp s _ t hraised
  · rw [hg a s' r t hrest]
    exact hp s _ s' hvalue

theorem May.ite {c : Prop} [Decidable c] {q : Program ε σ α}
    (hp : May part act p) (hq : May part act q) :
    May part act (if c then p else q) :=
  iteInduction (fun _ => hp) fun _ => hq

theorem May.handle_keeps {handler : ε → Program ε σ α} (hp : May part act p)
    (hhandler : ∀ e, Keeps part (handler e)) :
    May part act (handle p handler) := by
  intro s r t h
  rcases handle_eq_some.mp h with ⟨a, hvalue, -⟩ | ⟨e, s', hraised, hrest⟩
  · exact hp s _ t hvalue
  · rw [hhandler e s' r t hrest]
    exact hp s _ s' hraised

/-! ## Programs that act once -/

/-- If the program ends with a value it has taken one step on the part, and if
it ends with an exception it has taken none. -/
def Once (part : σ → τ) (act : τ → τ → Prop) (p : Program ε σ α) : Prop :=
  ∀ s t, (∀ a, p s = some (.ok a, t) → act (part s) (part t)) ∧
    ∀ e, p s = some (.error e, t) → part t = part s

/-- The program never ends with an exception. -/
def Calm (p : Program ε σ α) : Prop :=
  ∀ s e t, p s ≠ some (.error e, t)

theorem once_change {f : σ → σ} (h : ∀ s, act (part s) (part (f s))) :
    Once part act (change f : Program ε σ Unit) := by
  intro s t
  constructor
  · rintro a ⟨⟩
    exact h s
  · rintro e ⟨⟩

/-- What comes before the act must leave the part alone. -/
theorem Keeps.bind_once (hp : Keeps part p) (hg : ∀ a, Once part act (g a)) :
    Once part act (p >>= g) := by
  intro s t
  constructor
  · intro b h
    rcases bind_eq_some.mp h with ⟨e, -, hraised⟩ | ⟨a, s', hvalue, hrest⟩
    · cases hraised
    · rw [← hp s _ s' hvalue]
      exact (hg a s' t).1 b hrest
  · intro e h
    rcases bind_eq_some.mp h with ⟨e', hraised, -⟩ | ⟨a, s', hvalue, hrest⟩
    · exact hp s _ t hraised
    · exact ((hg a s' t).2 e hrest).trans (hp s _ s' hvalue)

theorem Once.ite {c : Prop} [Decidable c] {q : Program ε σ α}
    (hp : Once part act p) (hq : Once part act q) :
    Once part act (if c then p else q) :=
  iteInduction (fun _ => hp) fun _ => hq

/-- A handler acts in place of a program that raised an exception. -/
theorem Once.handle {handler : ε → Program ε σ α} (hp : Once part act p)
    (hhandler : ∀ e, Once part act (handler e)) :
    Once part act (handle p handler) := by
  intro s t
  constructor
  · intro a h
    rcases handle_eq_some.mp h with ⟨a', hvalue, -⟩ | ⟨e, s', hraised, hrest⟩
    · exact (hp s t).1 a' hvalue
    · rw [← (hp s s').2 e hraised]
      exact (hhandler e s' t).1 a hrest
  · intro e h
    rcases handle_eq_some.mp h with ⟨a', -, hok⟩ | ⟨e', s', hraised, hrest⟩
    · cases hok
    · exact ((hhandler e' s' t).2 e hrest).trans ((hp s s').2 e' hraised)

/-- A program whose handlers raise nothing raises nothing. -/
theorem calm_handle {handler : ε → Program ε σ α}
    (hhandler : ∀ e, Calm (handler e)) : Calm (handle p handler) := by
  intro s e t h
  rcases handle_eq_some.mp h with ⟨a, -, hok⟩ | ⟨e', s', -, hrest⟩
  · cases hok
  · exact hhandler e' s' e t hrest

/-- A program that cannot raise an exception has acted once when it ends. -/
theorem Once.of_calm (hp : Once part act p) (hcalm : Calm p)
    {r : Except ε α} (h : p s = some (r, t)) :
    (∃ a, r = .ok a) ∧ act (part s) (part t) := by
  cases r with
  | error e => exact (hcalm s e t h).elim
  | ok a => exact ⟨⟨a, rfl⟩, (hp s t).1 a h⟩

/-! ## Programs that come to an end -/

/-- The program is defined on every state. -/
def Defined (p : Program ε σ α) : Prop :=
  ∀ s, ∃ r t, p s = some (r, t)

theorem defined_raise (e : ε) : Defined (raise e : Program ε σ α) :=
  fun s => ⟨_, s, rfl⟩

theorem defined_ofExcept (x : Except ε α) :
    Defined (ofExcept x : Program ε σ α) :=
  fun s => ⟨x, s, rfl⟩

theorem defined_change (f : σ → σ) :
    Defined (change f : Program ε σ Unit) :=
  fun s => ⟨_, f s, rfl⟩

theorem Defined.bind (hp : Defined p) (hg : ∀ a, Defined (g a)) :
    Defined (p >>= g) := by
  intro s
  obtain ⟨r, s', hrun⟩ := hp s
  cases r with
  | error e => exact ⟨.error e, s', bind_eq_some.mpr (Or.inl ⟨e, hrun, rfl⟩)⟩
  | ok a =>
      obtain ⟨r, t, hrest⟩ := hg a s'
      exact ⟨r, t, bind_eq_some.mpr (Or.inr ⟨a, s', hrun, hrest⟩)⟩

theorem Defined.ite {c : Prop} [Decidable c] {q : Program ε σ α}
    (hp : Defined p) (hq : Defined q) : Defined (if c then p else q) :=
  iteInduction (fun _ => hp) fun _ => hq

/-! ## Two programs side by side -/

/-- Run on states whose views are related, both programs end, with outcomes
that are related as well, and the views still are. -/
def Twin (view : σ → τ) (R : τ → τ → Prop)
    (V : Except ε α → Except ε α → Prop) (p q : Program ε σ α) : Prop :=
  ∀ s s', R (view s) (view s') → ∃ r t r' t', p s = some (r, t) ∧
    q s' = some (r', t') ∧ V r r' ∧ R (view t) (view t')

/-- The outcomes may be any. -/
def Whichever (_ _ : Except ε α) : Prop := True

variable {view : σ → τ} {R : τ → τ → Prop}
  {V : Except ε α → Except ε α → Prop} {q : Program ε σ α}

theorem twin_ofExcept (x : Except ε α) :
    Twin view R Eq (ofExcept x : Program ε σ α) (ofExcept x) :=
  fun s s' hR => ⟨x, s, x, s', rfl, rfl, rfl, hR⟩

/-- What both look at must be in the view. -/
theorem twin_look {f : σ → α}
    (h : ∀ s s', R (view s) (view s') → f s = f s') :
    Twin view R Eq (look f : Program ε σ α) (look f) :=
  fun s s' hR => ⟨_, s, _, s', rfl, rfl, congrArg Except.ok (h s s' hR), hR⟩

theorem twin_change {f : σ → σ}
    (h : ∀ s s', R (view s) (view s') → R (view (f s)) (view (f s'))) :
    Twin view R Eq (change f : Program ε σ Unit) (change f) :=
  fun s s' hR => ⟨_, f s, _, f s', rfl, rfl, rfl, h s s' hR⟩

/-- Two programs that keep the view. -/
theorem Keeps.twin (hp : Keeps view p) (hq : Keeps view q) (hp' : Defined p)
    (hq' : Defined q) : Twin view R Whichever p q := by
  intro s s' hR
  obtain ⟨r, t, hrun⟩ := hp' s
  obtain ⟨r', t', hrun'⟩ := hq' s'
  refine ⟨r, t, r', t', hrun, hrun', trivial, ?_⟩
  rw [hp s r t hrun, hq s' r' t' hrun']
  exact hR

/-- A program beside itself on one state. -/
theorem Defined.twin (h : Defined p) : Twin id Eq Whichever p p := by
  rintro s s' rfl
  obtain ⟨r, t, hrun⟩ := h s
  exact ⟨r, t, r, t, hrun, hrun, trivial, rfl⟩

theorem Twin.ite {c : Prop} [Decidable c] {p' q' : Program ε σ α}
    (hp : Twin view R V p q) (hq : Twin view R V p' q') :
    Twin view R V (if c then p else p') (if c then q else q') := by
  by_cases hc : c
  · rw [if_pos hc, if_pos hc]
    exact hp
  · rw [if_neg hc, if_neg hc]
    exact hq

/-- As long as the outcomes are equal, both go on with the same value. -/
theorem Twin.bind (hp : Twin view R Eq p q)
    (hg : ∀ a, Twin view R Whichever (g a) (g a)) :
    Twin view R Whichever (p >>= g) (q >>= g) := by
  intro s s' hR
  obtain ⟨r, t, _, t', hrun, hrun', rfl, hafter⟩ := hp s s' hR
  cases r with
  | error e =>
      exact ⟨.error e, t, .error e, t', bind_eq_some.mpr (Or.inl ⟨e, hrun, rfl⟩),
        bind_eq_some.mpr (Or.inl ⟨e, hrun', rfl⟩), trivial, hafter⟩
  | ok a =>
      obtain ⟨r, u, r', u', hrest, hrest', hV, hlast⟩ := hg a t t' hafter
      exact ⟨r, u, r', u', bind_eq_some.mpr (Or.inr ⟨a, t, hrun, hrest⟩),
        bind_eq_some.mpr (Or.inr ⟨a, t', hrun', hrest'⟩), hV, hlast⟩

/-- Wherever the first program ends, the second ends with the same view. -/
def EndsLike (view : σ → τ) (p : Program ε σ α) (q : Program ε σ β) : Prop :=
  ∀ s r t, p s = some (r, t) → ∃ r' t', q s = some (r', t') ∧ view t' = view t

theorem Twin.of_endsLike {p' q' : Program ε σ β} (h : Twin view R V p q)
    (hp : EndsLike view p p') (hq : EndsLike view q q') :
    Twin view R Whichever p' q' := by
  intro s s' hR
  obtain ⟨r, t, r', t', hrun, hrun', -, hafter⟩ := h s s' hR
  obtain ⟨r₁, t₁, hrest, hview⟩ := hp s r t hrun
  obtain ⟨r₂, t₂, hrest', hview'⟩ := hq s' r' t' hrun'
  refine ⟨r₁, t₁, r₂, t₂, hrest, hrest', trivial, ?_⟩
  rw [hview, hview']
  exact hafter

theorem endsLike_bind (hg : ∀ a, Keeps view (g a)) (hg' : ∀ a, Defined (g a)) :
    EndsLike view p (p >>= g) := by
  intro s r t hrun
  cases r with
  | error e =>
      exact ⟨.error e, t, bind_eq_some.mpr (Or.inl ⟨e, hrun, rfl⟩), rfl⟩
  | ok a =>
      obtain ⟨r', t', hrest⟩ := hg' a t
      exact ⟨r', t', bind_eq_some.mpr (Or.inr ⟨a, t, hrun, hrest⟩),
        hg a t r' t' hrest⟩

theorem endsLike_handle {handler : ε → Program ε σ α}
    (hhandler : ∀ e, Keeps view (handler e))
    (hhandler' : ∀ e, Defined (handler e)) :
    EndsLike view p (handle p handler) := by
  intro s r t hrun
  cases r with
  | ok a => exact ⟨.ok a, t, handle_eq_some.mpr (Or.inl ⟨a, hrun, rfl⟩), rfl⟩
  | error e =>
      obtain ⟨r', t', hrest⟩ := hhandler' e t
      exact ⟨r', t', handle_eq_some.mpr (Or.inr ⟨e, t, hrun, hrest⟩),
        hhandler e t r' t' hrest⟩

/-- What comes after the view has changed for the last time does not matter. -/
theorem Twin.bind_keeps (hp : Twin view R V p q)
    (hg : ∀ a, Keeps view (g a)) (hg' : ∀ a, Defined (g a)) :
    Twin view R Whichever (p >>= g) (q >>= g) :=
  hp.of_endsLike (endsLike_bind hg hg') (endsLike_bind hg hg')

theorem Twin.handle_keeps {handler : ε → Program ε σ α}
    (hp : Twin view R V p q) (hhandler : ∀ e, Keeps view (handler e))
    (hhandler' : ∀ e, Defined (handler e)) :
    Twin view R Whichever (handle p handler) (handle q handler) :=
  hp.of_endsLike (endsLike_handle hhandler hhandler')
    (endsLike_handle hhandler hhandler')

/-! ## A program that follows another -/

/-- Two outcomes with related values, or with the same exception. -/
def Corresponds (V : α → β → Prop) : Except ε α → Except ε β → Prop
  | .ok a, .ok b => V a b
  | .error e, .error e' => e = e'
  | _, _ => False

/-- From related states, wherever the first program ends the second ends as
well, with corresponding outcomes and states in the second relation. -/
def Follows (R R' : σ → σ → Prop) (V : α → β → Prop) (p : Program ε σ α)
    (q : Program ε σ β) : Prop :=
  ∀ s s' r t, R s s' → p s = some (r, t) →
    ∃ r' t', q s' = some (r', t') ∧ Corresponds V r r' ∧ R' t t'

section Follows

variable {γ δ : Type} {R R' R'' : σ → σ → Prop} {V : α → β → Prop}
  {p : Program ε σ α} {q : Program ε σ β}

theorem follows_ofExcept (x : Except ε α) :
    Follows R R Eq (ofExcept x : Program ε σ α) (ofExcept x) := by
  rintro s s' r t hR ⟨⟩
  refine ⟨x, s', rfl, ?_, hR⟩
  cases x with
  | error e => rfl
  | ok a => rfl

theorem follows_look {f : σ → α} {g : σ → β}
    (h : ∀ s s', R s s' → V (f s) (g s')) :
    Follows R R V (look f : Program ε σ α) (look g) := by
  rintro s s' r t hR ⟨⟩
  exact ⟨_, s', rfl, h s s' hR, hR⟩

theorem follows_change {f g : σ → σ} (h : ∀ s s', R s s' → R' (f s) (g s')) :
    Follows R R' Eq (change f : Program ε σ Unit) (change g) := by
  rintro s s' r t hR ⟨⟩
  exact ⟨_, g s', rfl, rfl, h s s' hR⟩

/-- An exception of the first half ends both, so what holds after the first half
must be enough. -/
theorem Follows.bind {W : γ → δ → Prop} {g : α → Program ε σ γ}
    {g' : β → Program ε σ δ} (hp : Follows R R' V p q)
    (hg : ∀ a b, V a b → Follows R' R'' W (g a) (g' b))
    (hafter : ∀ s s', R' s s' → R'' s s') :
    Follows R R'' W (p >>= g) (q >>= g') := by
  intro s s' r t hR hrun
  rcases bind_eq_some.mp hrun with ⟨e, hraised, rfl⟩ | ⟨a, u, hvalue, hrest⟩
  · obtain ⟨r', t', hrun', hV, hR'⟩ := hp s s' _ t hR hraised
    cases r' with
    | ok b => exact hV.elim
    | error e' =>
        exact ⟨.error e', t', bind_eq_some.mpr (Or.inl ⟨e', hrun', rfl⟩), hV,
          hafter _ _ hR'⟩
  · obtain ⟨r', u', hrun', hV, hR'⟩ := hp s s' _ u hR hvalue
    cases r' with
    | error e' => exact hV.elim
    | ok b =>
        obtain ⟨r', t', hrest', hW, hR''⟩ := hg a b hV u u' r t hR' hrest
        exact ⟨r', t', bind_eq_some.mpr (Or.inr ⟨b, u', hrun', hrest'⟩), hW, hR''⟩

theorem Follows.handle {handler : ε → Program ε σ α} {handler' : ε → Program ε σ β}
    (hp : Follows R R' V p q)
    (hhandler : ∀ e, Follows R' R' V (handler e) (handler' e)) :
    Follows R R' V (handle p handler) (handle q handler') := by
  intro s s' r t hR hrun
  rcases handle_eq_some.mp hrun with ⟨a, hvalue, rfl⟩ | ⟨e, u, hraised, hrest⟩
  · obtain ⟨r', t', hrun', hV, hR'⟩ := hp s s' _ t hR hvalue
    cases r' with
    | error e' => exact hV.elim
    | ok b =>
        exact ⟨.ok b, t', handle_eq_some.mpr (Or.inl ⟨b, hrun', rfl⟩), hV, hR'⟩
  · obtain ⟨r', u', hrun', hV, hR'⟩ := hp s s' _ u hR hraised
    cases r' with
    | ok b => exact hV.elim
    | error e' =>
        obtain rfl : e = e' := hV
        obtain ⟨r', t', hrest', hV', hR''⟩ := hhandler e u u' r t hR' hrest
        exact ⟨r', t', handle_eq_some.mpr (Or.inr ⟨e, u', hrun', hrest'⟩), hV', hR''⟩

theorem Follows.ite {c : Prop} [Decidable c] {p' : Program ε σ α}
    {q' : Program ε σ β} (hp : Follows R R' V p q) (hq : Follows R R' V p' q') :
    Follows R R' V (if c then p else p') (if c then q else q') := by
  by_cases hc : c
  · rw [if_pos hc, if_pos hc]
    exact hp
  · rw [if_neg hc, if_neg hc]
    exact hq

/-- Programs on parts of the states. -/
theorem follows_within {S S' : τ → τ → Prop} {part : σ → τ}
    {replace : σ → τ → σ} {p : Program ε τ α} {q : Program ε τ β}
    (h : Follows S S' V p q) (hbefore : ∀ s s', R s s' → S (part s) (part s'))
    (hafter : ∀ s s' u u', R s s' → S' u u' → R' (replace s u) (replace s' u')) :
    Follows R R' V (within part replace p) (within part replace q) := by
  intro s s' r t hR hrun
  obtain ⟨⟨r₀, u⟩, hpart, heq⟩ := Option.map_eq_some_iff.mp hrun
  obtain ⟨rfl, rfl⟩ := Prod.mk.inj heq
  obtain ⟨r', u', hpart', hV, hS'⟩ := h _ _ r₀ u (hbefore s s' hR) hpart
  exact ⟨r', _, Option.map_eq_some_iff.mpr ⟨_, hpart', rfl⟩, hV,
    hafter s s' u u' hR hS'⟩

end Follows

end Program
