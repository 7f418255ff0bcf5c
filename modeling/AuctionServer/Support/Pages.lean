import Mathlib

/-!
# Cutting a list into pages

Page `p` of a list holds the `n` elements from position `(p - 1) * n` on; pages
are numbered from one.  A position is on exactly one page, consecutive pages
put end to end give back the list, and a page that starts past the end is
empty.
-/

namespace Pages

variable {α : Type}

/-- Page `p`, of `n` elements. -/
def page (l : List α) (n p : ℕ) : List α :=
  (l.drop ((p - 1) * n)).take n

/-- Position `i` is on page `p`. -/
def OnPage (n p i : ℕ) : Prop :=
  (p - 1) * n ≤ i ∧ i < p * n

/-- The last page of a list. -/
def pageCount (total n : ℕ) : ℕ :=
  (total + n - 1) / n

theorem getElem?_page (l : List α) (n p i : ℕ) :
    (page l n p)[i]? = if i < n then l[(p - 1) * n + i]? else none := by
  rw [page, List.getElem?_take]
  split
  · rw [List.getElem?_drop]
  · rfl

theorem start_add {n p : ℕ} (hp : 1 ≤ p) : (p - 1) * n + n = p * n := by
  rw [← Nat.succ_mul, Nat.succ_eq_add_one, Nat.sub_add_cancel hp]

/-- A page is a slice. -/
theorem page_eq_slice (l : List α) {n p : ℕ} (hp : 1 ≤ p) :
    page l n p = (l.take (p * n)).drop ((p - 1) * n) := by
  rw [List.drop_take, ← start_add hp, Nat.add_sub_cancel_left]
  rfl

theorem page_eq_nil {l : List α} {n p : ℕ} (h : l.length ≤ (p - 1) * n) :
    page l n p = [] := by
  rw [page, List.drop_eq_nil_of_le h, List.take_nil]

/-- Two pages have no position in common. -/
theorem OnPage.unique {n p q i : ℕ} (h : OnPage n p i) (h' : OnPage n q i) :
    p = q := by
  by_contra hne
  -- The later of the two starts where the earlier one has ended.
  have later : ∀ {a b : ℕ}, a < b → i < a * n → (b - 1) * n ≤ i → False := by
    intro a b hab hlt hle
    have hmul : a * n ≤ (b - 1) * n := Nat.mul_le_mul_right n (by omega)
    omega
  rcases Nat.lt_or_gt_of_ne hne with hlt | hlt
  · exact later hlt h.2 h'.1
  · exact later hlt h'.2 h.1

theorem mem_page {l : List α} {n p : ℕ} (hp : 1 ≤ p) {x : α} :
    x ∈ page l n p ↔ ∃ i, OnPage n p i ∧ l[i]? = some x := by
  have hend := start_add (n := n) hp
  rw [List.mem_iff_getElem?]
  constructor
  · rintro ⟨i, hi⟩
    rw [getElem?_page] at hi
    split at hi
    · exact ⟨(p - 1) * n + i, ⟨by omega, by omega⟩, hi⟩
    · cases hi
  · rintro ⟨i, ⟨hlo, hhi⟩, hi⟩
    refine ⟨i - (p - 1) * n, ?_⟩
    rw [getElem?_page, if_pos (by omega), Nat.add_sub_cancel' hlo]
    exact hi

/-- Pages of a list without repetitions are disjoint. -/
theorem disjoint_pages {l : List α} (hl : l.Nodup) {n p q : ℕ} (hp : 1 ≤ p)
    (hq : 1 ≤ q) (hne : p ≠ q) : (page l n p).Disjoint (page l n q) := by
  intro x hx hx'
  obtain ⟨i, hi, hix⟩ := (mem_page hp).mp hx
  obtain ⟨j, hj, hjx⟩ := (mem_page hq).mp hx'
  obtain ⟨hlt, -⟩ := List.getElem?_eq_some_iff.mp hix
  obtain rfl : i = j :=
    (List.getElem?_inj hlt hl).mp (hix.trans hjx.symm)
  exact hne (hi.unique hj)

/-- The first `k` pages in turn are the first `k * n` elements. -/
theorem flatMap_page (l : List α) (n k : ℕ) :
    (List.range k).flatMap (fun p => page l n (p + 1)) = l.take (k * n) := by
  induction k with
  | zero => simp
  | succ k ih =>
      rw [List.range_succ, List.flatMap_append, ih, Nat.succ_mul, List.take_add]
      simp [page]

theorem le_pageCount_mul {total n : ℕ} (hn : 1 ≤ n) :
    total ≤ pageCount total n * n := by
  have hdiv := Nat.div_add_mod (total + n - 1) n
  have hmod : (total + n - 1) % n < n := Nat.mod_lt _ hn
  rw [pageCount, Nat.mul_comm]
  omega

end Pages
