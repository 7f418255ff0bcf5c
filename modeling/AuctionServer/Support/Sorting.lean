import Mathlib.Data.List.Sort

/-!
# Sorting by a strict weak comparison

What a comparison sort asks of its comparison, the comparisons that come from
a key in a linear order, and a sort that meets the resulting specification.
-/

/-- A comparison that is a strict weak order. -/
structure StrictWeak {α : Type} (lt : α → α → Bool) : Prop where
  irrefl : ∀ a, lt a a = false
  trans : ∀ a b c, lt a b = true → lt b c = true → lt a c = true
  split : ∀ a b c, lt a c = true → lt a b = true ∨ lt b c = true

namespace StrictWeak

variable {α : Type} {lt : α → α → Bool}

theorem asymm (h : StrictWeak lt) {a b : α} (hab : lt a b = true) :
    lt b a = false := by
  by_contra hba
  have hself := h.trans a b a hab (by simpa using hba)
  rw [h.irrefl] at hself
  exact Bool.false_ne_true hself

/-! ## Comparing keys -/

section Key

variable {β : Type} [LE β] [LT β] [Std.IsLinearOrder β] [Std.LawfulOrderLT β]
  [DecidableLT β]

theorem of_key (key : α → β) : StrictWeak fun a b => decide (key a < key b) where
  irrefl := by
    intro a
    simpa using Std.lt_irrefl
  trans := by
    intro a b c hab hbc
    simp only [decide_eq_true_eq] at hab hbc ⊢
    exact Std.lt_trans hab hbc
  split := by
    intro a b c hac
    simp only [decide_eq_true_eq] at hac ⊢
    by_cases hab : key a < key b
    · exact Or.inl hab
    · exact Or.inr (Std.lt_of_le_of_lt (Std.not_lt.mp hab) hac)

/-- The comparison the other way round. -/
theorem flip (h : StrictWeak lt) : StrictWeak fun a b => lt b a where
  irrefl := h.irrefl
  trans := fun a b c hba hcb => h.trans c b a hcb hba
  split := fun a b c hca => (h.split c b a hca).symm

end Key

/-! ## Insertion sort -/

/-- `b` need not come before `a`. -/
def NotAfter (lt : α → α → Bool) (a b : α) : Prop :=
  lt b a = false

instance (lt : α → α → Bool) : DecidableRel (NotAfter lt) :=
  fun a b => inferInstanceAs (Decidable (lt b a = false))

/-- Insertion sort for a comparison. -/
def insertionSort (lt : α → α → Bool) (l : List α) : List α :=
  l.insertionSort (NotAfter lt)

theorem insertionSort_perm (lt : α → α → Bool) (l : List α) :
    (insertionSort lt l).Perm l :=
  List.perm_insertionSort _ l

theorem insertionSort_ordered (h : StrictWeak lt) (l : List α) :
    (insertionSort lt l).Pairwise fun a b => lt b a = false := by
  have htotal : Std.Total (NotAfter lt) := by
    constructor
    intro a b
    by_cases hba : lt b a = true
    · exact Or.inr (h.asymm hba)
    · exact Or.inl (Bool.eq_false_of_not_eq_true hba)
  have htrans : IsTrans α (NotAfter lt) := by
    constructor
    intro a b c hab hbc
    by_contra hca
    rcases h.split c b a (by simpa [NotAfter] using hca) with hcb | hba
    · exact Bool.false_ne_true (hbc.symm.trans hcb)
    · exact Bool.false_ne_true (hab.symm.trans hba)
  exact List.pairwise_insertionSort (NotAfter lt) l

end StrictWeak
