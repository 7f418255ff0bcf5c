import Mathlib.Logic.Function.Basic
import Mathlib.Logic.Relation

/-!
# Tables whose entries evolve

A table changes by replacing one present entry by a successor.  Along any
number of such changes no entry appears or disappears, and each of them
follows the successor relation on its own.
-/

namespace Evolution

open Relation (ReflTransGen)

variable {κ ν : Type} [DecidableEq κ]

/-- One present entry is replaced by a successor. -/
inductive Replaces (R : ν → ν → Prop) (t : κ → Option ν) :
    (κ → Option ν) → Prop
  | entry {k : κ} {old new : ν} (hold : t k = some old) (hnext : R old new) :
      Replaces R t (Function.update t k (some new))

/-- Present entries are replaced by successors, any number of times. -/
def Evolves (R : ν → ν → Prop) : (κ → Option ν) → (κ → Option ν) → Prop :=
  ReflTransGen (Replaces R)

variable {R : ν → ν → Prop} {t t' t'' : κ → Option ν} {k : κ}

theorem Evolves.refl : Evolves R t t :=
  ReflTransGen.refl

theorem Evolves.trans (h : Evolves R t t') (h' : Evolves R t' t'') :
    Evolves R t t'' :=
  ReflTransGen.trans h h'

theorem Evolves.single {old new : ν} (hold : t k = some old)
    (hnext : R old new) : Evolves R t (Function.update t k (some new)) :=
  ReflTransGen.single (.entry hold hnext)

/-- A present entry stays, as some descendant of itself. -/
theorem Evolves.descendant (h : Evolves R t t') {v : ν} (hv : t k = some v) :
    ∃ v', t' k = some v' ∧ ReflTransGen R v v' := by
  induction h with
  | refl => exact ⟨v, hv, ReflTransGen.refl⟩
  | tail _ hstep ih =>
      obtain ⟨v', hv', hR⟩ := ih
      cases hstep with
      | @entry i old new hold hnext =>
          rcases eq_or_ne k i with rfl | hne
          · obtain rfl := Option.some.inj (hold.symm.trans hv')
            exact ⟨new, by simp, hR.tail hnext⟩
          · exact ⟨v', by rwa [Function.update_of_ne hne], hR⟩

/-- An entry that is there afterwards descends from one that was there. -/
theorem Evolves.ancestor (h : Evolves R t t') {v' : ν} (hv' : t' k = some v') :
    ∃ v, t k = some v ∧ ReflTransGen R v v' := by
  induction h generalizing v' with
  | refl => exact ⟨v', hv', ReflTransGen.refl⟩
  | tail _ hstep ih =>
      cases hstep with
      | @entry i old new hold hnext =>
          rcases eq_or_ne k i with rfl | hne
          · obtain ⟨v, hv, hR⟩ := ih hold
            rw [Function.update_self] at hv'
            obtain rfl := Option.some.inj hv'
            exact ⟨v, hv, hR.tail hnext⟩
          · rw [Function.update_of_ne hne] at hv'
            exact ih hv'

end Evolution
