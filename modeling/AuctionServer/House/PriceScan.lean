import AuctionServer.House.Runs

/-!
# Scanning a price range

A search with an upper price bound and nothing more selective walks the price
index from the first price that is not below the minimum to the first price
above the maximum.  The two positions are compared for equality only, and no
caller puts the bounds in order.
-/

namespace AuctionServer

namespace AuctionHouse

/-- No indexed price lies strictly between bounds given in the wrong order. -/
def ScanStops (house : AuctionHouse) (minPrice maxPrice : UInt32) : Prop :=
  ∀ price ∈ house.priceIndex, ¬ (maxPrice < price ∧ price < minPrice)

theorem scanStops_iff {house : AuctionHouse} {minPrice maxPrice : UInt32} :
    house.ScanStops minPrice maxPrice ↔
      ∀ price ∈ house.priceIndex, price < minPrice → price ≤ maxPrice := by
  refine forall_congr' fun price => forall_congr' fun _ => ?_
  rw [not_and, UInt32.not_lt, ← UInt32.not_lt, ← UInt32.not_le]
  exact not_imp_not

/-- The price scan ends within the index and collects exactly the ids filed
within the bounds, as long as no indexed price lies strictly between bounds
given in the wrong order; otherwise it runs past the end. -/
theorem price_scan_collects_iff (house : AuctionHouse)
    (minPrice maxPrice : UInt32) :
    (∃ ids, house.priceIndex.collectRange minPrice maxPrice = some ids ∧
        ∀ id, id ∈ ids ↔
          ∃ price, minPrice ≤ price ∧ price ≤ maxPrice ∧
            house.Files (.price price) id) ↔
      house.ScanStops minPrice maxPrice := by
  have hcollects := @Buckets.collectRange_collects_iff _ _ _ _ _ _ _ _ _
    house.priceIndex minPrice maxPrice
  simp only [Std.isLE_compare, Std.compare_eq_lt] at hcollects
  rw [scanStops_iff]
  exact hcollects

theorem collectRange_eq_none_iff {house : AuctionHouse}
    {minPrice maxPrice : UInt32} :
    house.priceIndex.collectRange minPrice maxPrice = none ↔
      ¬ house.ScanStops minPrice maxPrice := by
  have hnone := @Buckets.collectRange_eq_none_iff _ _ _ _ _ _ _ _ _
    house.priceIndex minPrice maxPrice
  simp only [Std.isLE_compare, Std.compare_eq_lt] at hnone
  rw [hnone, scanStops_iff]
  push Not
  rfl

/-- A search is undefined exactly when it gets to the price scan and the scan
does not stop. -/
theorem candidates_eq_none_iff {house : AuctionHouse}
    {criteria : SearchCriteria} :
    house.candidates criteria = none ↔
      (criteria.keyword = [] ∨ criteria.keyword ∉ house.keywordIndex) ∧
        (criteria.itemType = 0 ∨ criteria.itemType ∉ house.itemTypeIndex) ∧
        criteria.sellerName = [] ∧ 0 < criteria.maxPrice ∧
        ¬ house.ScanStops criteria.minPrice criteria.maxPrice := by
  rw [← collectRange_eq_none_iff, candidates]
  by_cases hkeyword : criteria.keyword = [] ∨
      criteria.keyword ∉ house.keywordIndex
  · by_cases htype : criteria.itemType = 0 ∨
        criteria.itemType ∉ house.itemTypeIndex
    · have hslow : (!criteria.keyword.isEmpty &&
          house.keywordIndex.contains criteria.keyword) = false := by
        rcases hkeyword with hempty | habsent
        · simp [hempty]
        · rw [← Std.ExtTreeMap.contains_iff_mem, Bool.not_eq_true] at habsent
          simp [habsent]
      have hslow' : (criteria.itemType != 0 &&
          house.itemTypeIndex.contains criteria.itemType) = false := by
        rcases htype with hzero | habsent
        · simp [hzero]
        · rw [← Std.ExtTreeMap.contains_iff_mem, Bool.not_eq_true] at habsent
          simp [habsent]
      by_cases hseller : criteria.sellerName = []
      · by_cases hmax : 0 < criteria.maxPrice
        · simp [hslow, hslow', hkeyword, htype, hseller, hmax]
        · simp [hslow, hslow', hseller, hmax]
      · simp [hslow, hslow', hseller]
    · push Not at htype
      have hfast : (criteria.itemType != 0 &&
          house.itemTypeIndex.contains criteria.itemType) = true := by
        simpa using htype
      simp only [hfast, if_true]
      split <;> simp [htype]
  · push Not at hkeyword
    have hfast : (!criteria.keyword.isEmpty &&
        house.keywordIndex.contains criteria.keyword) = true := by
      simpa using hkeyword
    simp [hfast, hkeyword]

end AuctionHouse

namespace Server

/-- One listing for sixty, and a search for prices from a hundred to ten. -/
theorem price_scan_leaves_index :
    ∃ s, @Reachable StdSort.insertion s ∧
      ¬ ∃ ids, s.house.priceIndex.collectRange 100 10 = some ids ∧
        ∀ id, id ∈ ids ↔ ∃ price, 100 ≤ price ∧ price ≤ 10 ∧
          s.house.Files (.price price) id := by
  obtain ⟨es, s, hserve, hs⟩ :=
    @exists_serve StdSort.insertion market [] none (fun _ => .answered)
      [offer "iron sword"]
      (fun _ s => (s.house.priceIndex.collectRange 100 10).isNone)
      (by decide)
  refine ⟨s, ⟨_, _, _, _, _, _, hserve⟩, ?_⟩
  rintro ⟨ids, hids, -⟩
  rw [hids] at hs
  cases hs

end Server
end AuctionServer
