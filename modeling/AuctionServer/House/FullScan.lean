import AuctionServer.House.PriceScan

/-!
# Searches against a full scan

Without a keyword, what a search selects is what a scan of all listings
selects: every index it may start from is complete.  The keyword index is
not, since it holds whole words of names registered by this process, while
the filter matches any part of a name.
-/

namespace AuctionServer
namespace Server

/-- The listings of the house that satisfy `matchesCriteria`. -/
def scan (s : Server) (criteria : SearchCriteria) : List AuctionItem :=
  (listings s.house).filter fun item =>
    decide (matchesCriteria s.db .answered item criteria = .ok true)

variable {s : Server} {criteria : SearchCriteria} {sellers : UInt64 → ReadOutcome}

theorem scan_eq_matching (h : s.db.BalancesReadable)
    (criteria : SearchCriteria) : s.scan criteria = s.matching criteria := by
  simp [scan, matching, matchesCriteria_answered h]

/-- Without a keyword a search selects what a full scan does, in the requested
order, and leaves the house alone. -/
theorem selectItems_without_keyword [StdSort] (hreach : s.ReachableAnswered)
    (hsellers : ∀ id, sellers id = .answered)
    (hkeyword : criteria.keyword = []) (hprices : criteria.PricesOrdered) :
    ∃ results, s.selectItems sellers criteria = some (.ok results, s.house) ∧
      results.Perm (s.scan criteria) ∧ results.Pairwise (InOrder criteria) := by
  have h := hreach.indexed
  obtain ⟨ids, hids, hcomplete⟩ :=
    h.candidates_complete (Or.inl hkeyword) hprices
  obtain ⟨hperm, hordered⟩ :=
    sortResults_spec criteria (@WellFiled.selected_ids s criteria ids h.wellFiled)
  refine ⟨_, h.selectItems_eq hsellers hids, ?_, hordered⟩
  rw [scan_eq_matching h.readable]
  exact hperm.trans (h.wellFiled.selected_perm hcomplete)

theorem market_readable : market.BalancesReadable := by
  intro doc hdoc
  simp only [market, List.mem_cons, List.not_mem_nil, or_false] at hdoc
  rcases hdoc with rfl | rfl <;> simp

/-- Houses over the small market in which a few items are listed. -/
theorem reachableAnswered_market {names : List String} {es : List ServerEvent}
    (h : @serve StdSort.insertion market [] none (fun _ => .answered)
      (names.map offer) = some (es, s)) :
    @ReachableAnswered StdSort.insertion s := by
  refine ⟨market, [], none, fun _ => .answered, _, es, market_readable,
    fun _ => rfl, ?_, h⟩
  intro call hcall
  obtain ⟨name, -, rfl⟩ := List.mem_map.mp hcall
  exact rfl

/-- Two listings found by price, dearest first. -/
theorem selectItems_without_keyword_market :
    ∃ s, @ReachableAnswered StdSort.insertion s ∧
      (listings s.house).length = 2 ∧
      ∃ results, @selectItems StdSort.insertion s (fun _ => .answered)
          { maxPrice := 70, sortOrder := literal "desc" } =
            some (.ok results, s.house) ∧
        results.Perm
          (s.scan { maxPrice := 70, sortOrder := literal "desc" }) ∧
        results.Pairwise
          (InOrder { maxPrice := 70, sortOrder := literal "desc" }) := by
  obtain ⟨es, s, hserve, hlength⟩ :=
    @exists_serve StdSort.insertion market [] none (fun _ => .answered)
      (["iron sword", "oak shield"].map offer)
      (fun _ s => decide ((listings s.house).length = 2)) (by decide)
  have hreach := reachableAnswered_market hserve
  exact ⟨s, hreach, by simpa using hlength,
    @selectItems_without_keyword s _ _ StdSort.insertion hreach (fun _ => rfl)
      rfl (by decide)⟩

/-! ## Searches with a keyword -/

/-- The keyword index, where it is consulted, has every listing the scan
finds. -/
def KeywordIndexed (s : Server) (criteria : SearchCriteria) : Prop :=
  criteria.keyword ∉ s.house.keywordIndex ∨
    ∀ (id : UInt64) (item : AuctionItem), s.house.auctionItems[id]? = some item →
      item ∈ s.scan criteria → s.house.keywordIndex.Holds criteria.keyword id

theorem candidates_of_indexed_keyword (hkeyword : criteria.keyword ≠ [])
    (hindexed : criteria.keyword ∈ s.house.keywordIndex) :
    s.house.candidates criteria =
      some (s.house.keywordIndex.bucket criteria.keyword) := by
  have hcontains : s.house.keywordIndex.contains criteria.keyword = true :=
    Std.ExtTreeMap.contains_iff_mem.mpr hindexed
  simp [AuctionHouse.candidates, hkeyword, hcontains]

/-- The criteria of a keyword search. -/
def keywordSearch (keyword : String) : SearchCriteria :=
  { keyword := literal keyword }

end Server
end AuctionServer
