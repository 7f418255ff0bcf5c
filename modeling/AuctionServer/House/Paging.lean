import AuctionServer.House.Search
import AuctionServer.Support.Pages

/-!
# Pages of a search

`applyPagination` cuts the page out of the results from a start index that is
a product of two 32-bit values.  The page is the requested one as long as the
product does not wrap around, or when the list is too short to reach the
wrapped index as well.
-/

namespace AuctionServer

/-- The page a request means: page zero is served as the first. -/
def pageNumber (page : UInt32) : ℕ :=
  max page.toNat 1

/-- The integer the start index stands for. -/
def pageStart (page itemsPerPage : UInt32) : ℕ :=
  (pageNumber page - 1) * itemsPerPage.toNat

theorem one_le_pageNumber (page : UInt32) : 1 ≤ pageNumber page :=
  le_max_right _ _

/-- The start index in the code is the product modulo `2 ^ 32`. -/
theorem startIndex_toNat (page itemsPerPage : UInt32) :
    (((if page < 1 then 1 else page) - 1) * itemsPerPage).toNat =
      pageStart page itemsPerPage % 2 ^ 32 := by
  rw [UInt32.toNat_mul]
  congr 2
  unfold pageNumber
  split
  · next h =>
      have hzero : page.toNat < 1 := UInt32.lt_iff_toNat_lt.mp h
      rw [max_eq_right (by omega)]
      rfl
  · next h =>
      have hone : 1 ≤ page.toNat := by
        have hle : ¬ page.toNat < 1 := fun hlt => h (UInt32.lt_iff_toNat_lt.mpr hlt)
        omega
      rw [max_eq_left hone, UInt32.toNat_sub_of_le _ _ hone]
      rfl

/-- What `applyPagination` leaves, from the wrapped start index on. -/
theorem applyPagination_eq (results : List AuctionItem)
    {page itemsPerPage : UInt32} (hitems : 1 ≤ itemsPerPage) :
    applyPagination results page itemsPerPage =
      (results.drop (pageStart page itemsPerPage % 2 ^ 32)).take
        itemsPerPage.toNat := by
  have hne : (itemsPerPage == 0) = false := by
    rw [beq_eq_false_iff_ne]
    rintro rfl
    exact absurd hitems (by decide)
  cases hresults : results.isEmpty with
  | true =>
      rw [List.isEmpty_iff] at hresults
      simp [applyPagination, hresults]
  | false =>
      simp only [applyPagination, hresults, hne, Bool.or_self,
        Bool.false_eq_true, if_false, startIndex_toNat]
      split
      · next hpast => rw [List.drop_eq_nil_of_le hpast, List.take_nil]
      · rw [List.drop_take]
        apply List.take_eq_take_iff.mpr
        rw [List.length_drop]
        omega

/-- The page is the requested one when its start index does not wrap. -/
theorem applyPagination_eq_page (results : List AuctionItem)
    {page itemsPerPage : UInt32} (hitems : 1 ≤ itemsPerPage)
    (hstart : pageStart page itemsPerPage < 2 ^ 32) :
    applyPagination results page itemsPerPage =
      Pages.page results itemsPerPage.toNat (pageNumber page) := by
  rw [applyPagination_eq results hitems, Nat.mod_eq_of_lt hstart]
  rfl

/-- Lists of `n` elements, among them one that can be told from the others. -/
def markedResults (n marked : ℕ) : List AuctionItem :=
  (List.range n).map fun i =>
    { (default : AuctionItem) with price := if i = marked then 1 else 0 }

theorem getElem?_markedResults (n marked i : ℕ) :
    (markedResults n marked)[i]? = if i < n then
      some { (default : AuctionItem) with price := if i = marked then 1 else 0 }
    else none := by
  rw [markedResults, List.getElem?_map]
  split
  · next hi => rw [List.getElem?_range hi, Option.map_some]
  · next hi =>
      rw [List.getElem?_eq_none (by simpa using hi), Option.map_none]

/-- For lists of `n` results, the requested positions are what is left exactly
when the start index does not wrap or the list ends before the wrapped
index. -/
theorem applyPagination_eq_slice_iff (n : ℕ) (page itemsPerPage : UInt32)
    (hitems : 1 ≤ itemsPerPage) :
    (∀ results : List AuctionItem, results.length = n →
        applyPagination results page itemsPerPage =
          (results.take (pageNumber page * itemsPerPage.toNat)).drop
            ((pageNumber page - 1) * itemsPerPage.toNat)) ↔
      (pageNumber page - 1) * itemsPerPage.toNat < 2 ^ 32 ∨
        n ≤ (pageNumber page - 1) * itemsPerPage.toNat % 2 ^ 32 := by
  simp only [← Pages.page_eq_slice _ (one_le_pageNumber page)]
  change _ ↔ pageStart page itemsPerPage < 2 ^ 32 ∨
    n ≤ pageStart page itemsPerPage % 2 ^ 32
  constructor
  · intro h
    by_contra hno
    push Not at hno
    obtain ⟨hwraps, hreached⟩ := hno
    -- The element at the wrapped index is left, and it is on another page.
    have hlen : (markedResults n (pageStart page itemsPerPage % 2 ^ 32)).length =
        n := by simp [markedResults]
    have heq := congrArg (·[0]?) (h _ hlen)
    have hmod : pageStart page itemsPerPage % 2 ^ 32 < 2 ^ 32 :=
      Nat.mod_lt _ (by norm_num)
    have hpos : 0 < itemsPerPage.toNat := hitems
    have hpage : (Pages.page (markedResults n (pageStart page itemsPerPage %
        2 ^ 32)) itemsPerPage.toNat (pageNumber page))[0]? =
          (markedResults n (pageStart page itemsPerPage % 2 ^ 32))[
            pageStart page itemsPerPage]? := by
      rw [Pages.getElem?_page, if_pos hpos]
      rfl
    simp only [applyPagination_eq _ hitems, hpage, List.getElem?_take,
      List.getElem?_drop, Nat.add_zero, getElem?_markedResults, hpos, hreached,
      if_true] at heq
    have hother : pageStart page itemsPerPage ≠
        pageStart page itemsPerPage % 2 ^ 32 := by omega
    rw [if_neg hother] at heq
    split at heq
    · simp at heq
    · cases heq
  · rintro (hstart | hshort) results hlen
    · exact applyPagination_eq_page results hitems hstart
    · have hle : pageStart page itemsPerPage % 2 ^ 32 ≤
          pageStart page itemsPerPage := Nat.mod_le _ _
      rw [applyPagination_eq results hitems,
        List.drop_eq_nil_of_le (hlen.trans_le hshort), List.take_nil,
        Pages.page_eq_nil]
      exact hlen.trans_le (hshort.trans hle)

/-- Two results to a page, page `2 ^ 31` of a single result. -/
theorem applyPagination_slice_example :
    (∀ results : List AuctionItem, results.length = 1 →
        applyPagination results 2147483648 2 =
          (results.take (pageNumber 2147483648 * (2 : UInt32).toNat)).drop
            ((pageNumber 2147483648 - 1) * (2 : UInt32).toNat)) ↔
      (pageNumber 2147483648 - 1) * (2 : UInt32).toNat < 2 ^ 32 ∨
        1 ≤ (pageNumber 2147483648 - 1) * (2 : UInt32).toNat % 2 ^ 32 :=
  applyPagination_eq_slice_iff 1 2147483648 2 (by decide)

/-- The page after that is the first one again. -/
theorem applyPagination_wraps :
    ¬ ∀ (results : List AuctionItem) (page itemsPerPage : UInt32),
        1 ≤ itemsPerPage →
          applyPagination results page itemsPerPage =
            (results.take (pageNumber page * itemsPerPage.toNat)).drop
              ((pageNumber page - 1) * itemsPerPage.toNat) := by
  intro h
  have heq := h [default] 2147483649 2 (by decide)
  have hleft : applyPagination [default] 2147483649 2 = [default] := by decide
  have hright : ([default] : List AuctionItem).take
      (pageNumber 2147483649 * (2 : UInt32).toNat) = [default] :=
    List.take_of_length_le (by decide)
  rw [hleft, hright, List.drop_eq_nil_of_le (by decide)] at heq
  cases heq

/-- Distinct pages have no result in common. -/
theorem applyPagination_disjoint {results : List AuctionItem}
    (hresults : results.Nodup) {page page' itemsPerPage : UInt32}
    (hitems : 1 ≤ itemsPerPage)
    (hstart : pageStart page itemsPerPage < 2 ^ 32)
    (hstart' : pageStart page' itemsPerPage < 2 ^ 32)
    (hne : pageNumber page ≠ pageNumber page') :
    (applyPagination results page itemsPerPage).Disjoint
      (applyPagination results page' itemsPerPage) := by
  rw [applyPagination_eq_page results hitems hstart,
    applyPagination_eq_page results hitems hstart']
  exact Pages.disjoint_pages hresults (one_le_pageNumber page)
    (one_le_pageNumber page') hne

/-- Page numbers below `2 ^ 32` are sent as they are. -/
theorem pageNumber_ofNat {p : ℕ} (hp : p + 1 < 2 ^ 32) :
    pageNumber (UInt32.ofNat (p + 1)) = p + 1 := by
  rw [pageNumber, UInt32.toNat_ofNat_of_lt' hp, max_eq_left (by omega)]

/-- While no start index wraps, the first `k` pages in turn are the first
results, each position once. -/
theorem applyPagination_pages (results : List AuctionItem)
    {itemsPerPage : UInt32} (hitems : 1 ≤ itemsPerPage) {k : ℕ}
    (hk : k * itemsPerPage.toNat < 2 ^ 32) :
    (List.range k).flatMap (fun p =>
        applyPagination results (UInt32.ofNat (p + 1)) itemsPerPage) =
      results.take (k * itemsPerPage.toNat) := by
  rw [← Pages.flatMap_page]
  apply List.flatMap_congr
  intro p hp
  have hlt : p < k := List.mem_range.mp hp
  have hpos : 1 ≤ itemsPerPage.toNat := hitems
  have hnumber : p + 1 < 2 ^ 32 := by
    have hle : k * 1 ≤ k * itemsPerPage.toNat := Nat.mul_le_mul_left k hpos
    omega
  have hstart : pageStart (UInt32.ofNat (p + 1)) itemsPerPage < 2 ^ 32 := by
    rw [pageStart, pageNumber_ofNat hnumber, Nat.add_sub_cancel]
    have hle : p * itemsPerPage.toNat ≤ k * itemsPerPage.toNat :=
      Nat.mul_le_mul_right _ hlt.le
    omega
  rw [applyPagination_eq_page results hitems hstart, pageNumber_ofNat hnumber]

end AuctionServer
