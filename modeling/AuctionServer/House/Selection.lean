import AuctionServer.House.Filing
import AuctionServer.House.Search
import AuctionServer.Store.CacheCodec

/-!
# What a search selects

The candidates of a search are always listings of the house, so the filter
inserts no record by subscript and leaves the house alone.  Away from the
keyword index the candidates include every listing that matches, whichever
index they come from.
-/

namespace AuctionServer

namespace Server

variable {s : Server} {criteria : SearchCriteria} {ids : IdSet}

/-! ## Candidates -/

theorem mem_activeIds (entries : List (UInt64 × AuctionItem)) (acc : IdSet)
    (id : UInt64) :
    id ∈ entries.foldl
        (fun ids e => if e.2.status = .active then ids.insert e.1 else ids) acc ↔
      id ∈ acc ∨ ∃ e ∈ entries, e.2.status = .active ∧ e.1 = id := by
  induction entries generalizing acc with
  | nil => simp
  | cons e entries ih =>
      rw [List.foldl_cons, ih]
      by_cases hactive : e.2.status = .active
      · rw [if_pos hactive, Std.ExtTreeSet.mem_insert]
        simp only [Std.compare_eq_iff_eq, List.mem_cons, exists_eq_or_imp,
          hactive, true_and]
        tauto
      · rw [if_neg hactive]
        simp [hactive]

/-- Every candidate is the id of a listing. -/
theorem WellFiled.candidates_known (h : s.WellFiled)
    (hids : s.house.candidates criteria = some ids) {id : UInt64}
    (hid : id ∈ ids) : id ∈ s.house.auctionItems := by
  rw [AuctionHouse.candidates] at hids
  split at hids
  · obtain rfl := Option.some.inj hids
    exact h.known (.keyword criteria.keyword) id hid
  · split at hids
    · obtain rfl := Option.some.inj hids
      exact h.known (.type criteria.itemType) id hid
    · split at hids
      · obtain rfl := Option.some.inj hids
        exact h.known (.seller criteria.sellerName) id hid
      · split at hids
        · obtain ⟨price, hprice⟩ := Buckets.holds_of_mem_collectRange hids hid
          exact h.known (.price price) id hprice
        · obtain rfl := Option.some.inj hids
          rcases (mem_activeIds _ _ id).mp hid with hempty | ⟨e, he, -, rfl⟩
          · simp at hempty
          · have hitem := Std.ExtTreeMap.mem_toList_iff_getElem?_eq_some.mp he
            rw [Std.ExtTreeMap.mem_iff_isSome_getElem?, hitem]
            rfl

/-- The listing meets the criteria, once its seller is looked up. -/
def fits (db : Database) (criteria : SearchCriteria) (item : AuctionItem) :
    Bool :=
  withinBounds item criteria &&
    (criteria.sellerName.isEmpty ||
      decide (db.usernameOf item.sellerId = some criteria.sellerName)) &&
    nameMatches item criteria

theorem matchesCriteria_answered {db : Database} (h : db.BalancesReadable)
    (item : AuctionItem) (criteria : SearchCriteria) :
    matchesCriteria db .answered item criteria = .ok (fits db criteria item) := by
  obtain ⟨info, hinfo, hname⟩ := Database.getUserInfo_of_readable h item.sellerId
  by_cases hbounds : withinBounds item criteria = true
  · by_cases hseller : criteria.sellerName.isEmpty = true
    · simp [matchesCriteria, fits, hbounds, hseller]
    · cases info with
      | none =>
          have hnone : db.usernameOf item.sellerId = none := hname.symm
          simp [matchesCriteria, fits, hbounds, hseller, hinfo, hnone]
      | some info =>
          have hsome : db.usernameOf item.sellerId = some info.username :=
            hname.symm
          by_cases heq : info.username = criteria.sellerName
          · simp [matchesCriteria, fits, hbounds, hseller, hinfo, hsome, heq]
          · simp [matchesCriteria, fits, hbounds, hseller, hinfo, hsome, heq]
  · simp [matchesCriteria, fits, hbounds]

theorem fits_withinBounds {db : Database} {item : AuctionItem}
    (h : fits db criteria item = true) : withinBounds item criteria = true := by
  simp only [fits, Bool.and_eq_true] at h
  exact h.1.1

theorem withinBounds_iff {item : AuctionItem} :
    withinBounds item criteria = true ↔
      item.status = .active ∧ criteria.minPrice ≤ item.price ∧
        (0 < criteria.maxPrice → item.price ≤ criteria.maxPrice) ∧
        (criteria.itemType ≠ 0 → item.item.type = criteria.itemType) := by
  simp only [withinBounds, Bool.and_eq_true, beq_iff_eq, Bool.not_eq_true',
    Bool.and_eq_false_iff, decide_eq_false_iff_not, bne_eq_false_iff_eq,
    UInt32.not_lt, and_assoc]
  have hmin : criteria.minPrice ≤ 0 ∨ criteria.minPrice ≤ item.price ↔
      criteria.minPrice ≤ item.price := by
    grind
  have htype : criteria.itemType ≤ 0 ↔ criteria.itemType = 0 := by
    grind
  rw [hmin, htype]
  constructor
  · rintro ⟨hactive, hlo, hhi, ht⟩
    exact ⟨hactive, hlo, fun h => hhi.resolve_left (UInt32.not_le.mpr h),
      fun h => ht.resolve_left h⟩
  · rintro ⟨hactive, hlo, hhi, ht⟩
    refine ⟨hactive, hlo, ?_, ?_⟩
    · rcases UInt32.le_or_lt criteria.maxPrice 0 with h | h
      · exact Or.inl h
      · exact Or.inr (hhi h)
    · by_cases h : criteria.itemType = 0
      · exact Or.inl h
      · exact Or.inr (ht h)

theorem minPrice_le_maxPrice (hprices : criteria.PricesOrdered)
    (hmax : 0 < criteria.maxPrice) : criteria.minPrice ≤ criteria.maxPrice := by
  rcases hprices with hzero | hle
  · rw [hzero] at hmax
    exact absurd hmax (UInt32.lt_irrefl 0)
  · exact hle

/-- With the price bounds in order the candidates are defined. -/
theorem candidates_some (house : AuctionHouse)
    (hprices : criteria.PricesOrdered) :
    ∃ ids, house.candidates criteria = some ids := by
  unfold AuctionHouse.candidates
  split
  · exact ⟨_, rfl⟩
  · split
    · exact ⟨_, rfl⟩
    · split
      · exact ⟨_, rfl⟩
      · split
        · next hmax =>
            have hle := minPrice_le_maxPrice hprices hmax
            obtain ⟨ids, hids, -⟩ :=
              house.priceIndex.collectRange_eq_some (Std.isLE_compare.mpr hle)
            exact ⟨ids, hids⟩
        · exact ⟨_, rfl⟩

/-- Away from the keyword index, the candidates include every listing that
meets the criteria. -/
theorem Indexed.candidates_complete (h : s.Indexed)
    (hkeyword : criteria.keyword = [] ∨
      criteria.keyword ∉ s.house.keywordIndex)
    (hprices : criteria.PricesOrdered) :
    ∃ ids, s.house.candidates criteria = some ids ∧
      ∀ id item, s.house.auctionItems[id]? = some item →
        fits s.db criteria item = true → id ∈ ids := by
  have hfast : (!criteria.keyword.isEmpty &&
      s.house.keywordIndex.contains criteria.keyword) = false := by
    rcases hkeyword with hempty | hnot
    · simp [hempty]
    · simp [← Std.ExtTreeMap.contains_iff_mem] at hnot
      simp [hnot]
  rw [AuctionHouse.candidates, hfast]
  simp only [Bool.false_eq_true, if_false]
  split
  · next htype =>
      refine ⟨_, rfl, ?_⟩
      intro id item hitem hfits
      obtain ⟨hactive, -, -, hsame⟩ :=
        withinBounds_iff.mp (fits_withinBounds hfits)
      have hfiled := h.covered id item hitem hactive (.type item.item.type)
        (by simp [AuctionHouse.listingKeys])
      simp only [Bool.and_eq_true, bne_iff_ne] at htype
      rw [hsame htype.1] at hfiled
      exact hfiled
  · split
    · next hseller =>
        refine ⟨_, rfl, ?_⟩
        intro id item hitem hfits
        obtain ⟨hactive, -⟩ := withinBounds_iff.mp (fits_withinBounds hfits)
        have hname : s.db.usernameOf item.sellerId =
            some criteria.sellerName := by
          simp only [fits, Bool.and_eq_true, Bool.or_eq_true,
            decide_eq_true_eq] at hfits
          exact hfits.1.2.resolve_left (by simpa using hseller)
        exact h.covered id item hitem hactive (.seller criteria.sellerName)
          (by simp [AuctionHouse.listingKeys, hname])
    · split
      · next hmax =>
          have hle := minPrice_le_maxPrice hprices hmax
          obtain ⟨ids, hids, hmem⟩ :=
            s.house.priceIndex.collectRange_eq_some (Std.isLE_compare.mpr hle)
          refine ⟨ids, hids, ?_⟩
          intro id item hitem hfits
          obtain ⟨hactive, hlo, hhi, -⟩ :=
            withinBounds_iff.mp (fits_withinBounds hfits)
          rw [hmem]
          exact ⟨item.price, Std.isLE_compare.mpr hlo,
            Std.isLE_compare.mpr (hhi hmax),
            h.covered id item hitem hactive (.price item.price)
              (by simp [AuctionHouse.listingKeys])⟩
      · refine ⟨_, rfl, ?_⟩
        intro id item hitem hfits
        obtain ⟨hactive, -⟩ := withinBounds_iff.mp (fits_withinBounds hfits)
        rw [mem_activeIds]
        exact Or.inr ⟨(id, item),
          Std.ExtTreeMap.mem_toList_iff_getElem?_eq_some.mpr hitem, hactive, rfl⟩

/-! ## The filter -/

variable {db : Database} {sellers : UInt64 → ReadOutcome} {house : AuctionHouse}
  {id : UInt64}

theorem exists_item_of_mem (h : id ∈ house.auctionItems) :
    ∃ item, house.auctionItems[id]? = some item := by
  rw [Std.ExtTreeMap.mem_iff_isSome_getElem?] at h
  exact Option.isSome_iff_exists.mp h

/-- Over listings of the house the filter inserts nothing, and what it lets
through are open listings of the house. -/
theorem filterMatches_known {ids : List UInt64}
    (hknown : ∀ id ∈ ids, id ∈ house.auctionItems) :
    (AuctionHouse.filterMatches db sellers criteria ids house).2 = house ∧
      ∀ results,
        (AuctionHouse.filterMatches db sellers criteria ids house).1 =
            .ok results →
          ∀ item ∈ results, item.status = .active ∧
            ∃ id ∈ ids, house.auctionItems[id]? = some item := by
  induction ids with
  | nil =>
      refine ⟨rfl, ?_⟩
      intro results hresults item hitem
      obtain rfl : [] = results := by
        simpa [AuctionHouse.filterMatches] using hresults
      simp at hitem
  | cons id ids ih =>
      obtain ⟨hhouse, hactive⟩ :=
        ih fun id' hid' => hknown id' (List.mem_cons_of_mem _ hid')
      obtain ⟨item, hitem⟩ := exists_item_of_mem (hknown id List.mem_cons_self)
      have hsubscript : house.subscript id = (item, house) := by
        simp [AuctionHouse.subscript, hitem]
      simp only [AuctionHouse.filterMatches, hsubscript]
      rcases hrest : AuctionHouse.filterMatches db sellers criteria ids house
        with ⟨rest, house'⟩
      rw [hrest] at hhouse hactive
      obtain rfl : house' = house := hhouse
      cases hmatches : matchesCriteria db (sellers id) item criteria with
      | error e =>
          refine ⟨rfl, ?_⟩
          intro results hresults
          cases hresults
      | ok matched =>
          cases rest with
          | error e =>
              refine ⟨rfl, ?_⟩
              intro results hresults
              cases hresults
          | ok rest =>
              refine ⟨rfl, ?_⟩
              intro results hresults item' hitem'
              obtain rfl := Except.ok.inj hresults
              have hsplit : (matched = true ∧ item' = item) ∨ item' ∈ rest := by
                cases matched with
                | false => exact Or.inr hitem'
                | true =>
                    rcases List.mem_cons.mp hitem' with heq | hmem
                    · exact Or.inl ⟨rfl, heq⟩
                    · exact Or.inr hmem
              rcases hsplit with ⟨hmatched, rfl⟩ | hmem
              · refine ⟨?_, id, List.mem_cons_self, hitem⟩
                by_contra hclosed
                have hbounds : withinBounds item' criteria = false := by
                  by_contra hin
                  exact hclosed (withinBounds_iff.mp (by simpa using hin)).1
                simp [matchesCriteria, hbounds, hmatched] at hmatches
              · obtain ⟨hstatus, id', hid', hfound⟩ :=
                  hactive rest rfl item' hmem
                exact ⟨hstatus, id', List.mem_cons_of_mem _ hid', hfound⟩

/-- With the lookups answered, the filter keeps the listings that meet the
criteria, in the order of their ids. -/
theorem filterMatches_answered (hreadable : db.BalancesReadable)
    (hsellers : ∀ id, sellers id = .answered) {ids : List UInt64}
    (hknown : ∀ id ∈ ids, id ∈ house.auctionItems) :
    AuctionHouse.filterMatches db sellers criteria ids house =
      (.ok (ids.filterMap fun id =>
        house.auctionItems[id]?.filter (fits db criteria)), house) := by
  induction ids with
  | nil => rfl
  | cons id ids ih =>
      have hrest := ih fun id' hid' => hknown id' (List.mem_cons_of_mem _ hid')
      obtain ⟨item, hitem⟩ := exists_item_of_mem (hknown id List.mem_cons_self)
      have hsubscript : house.subscript id = (item, house) := by
        simp [AuctionHouse.subscript, hitem]
      simp only [AuctionHouse.filterMatches, hsubscript, hsellers,
        matchesCriteria_answered hreadable, hrest, List.filterMap_cons, hitem,
        Option.filter]
      cases fits db criteria item <;> rfl

/-! ## Order -/

/-- The listings of the house, by ascending id. -/
def listings (house : AuctionHouse) : List AuctionItem :=
  house.auctionItems.toList.map Prod.snd

/-- `a` may come before `b` in the requested order; without a sort key that is
the order of the ids. -/
def InOrder (criteria : SearchCriteria) (a b : AuctionItem) : Prop :=
  if criteria.sortBy = literal "price" then
    if criteria.sortOrder = literal "desc" then b.price ≤ a.price
    else a.price ≤ b.price
  else if criteria.sortBy = literal "time" then
    if criteria.sortOrder = literal "desc" then
      b.registrationTime ≤ a.registrationTime
    else a.registrationTime ≤ b.registrationTime
  else if criteria.sortBy = literal "name" then
    if criteria.sortOrder = literal "desc" then b.item.name ≤ a.item.name
    else a.item.name ≤ b.item.name
  else a.id < b.id

theorem sort_key [StdSort] {β : Type} [LE β] [LT β] [Std.IsLinearOrder β]
    [Std.LawfulOrderLT β] [DecidableLT β] (key : AuctionItem → β)
    (results : List AuctionItem) :
    (StdSort.sort (fun a b => key a < key b) results).Perm results ∧
      (StdSort.sort (fun a b => key a < key b) results).Pairwise
        fun a b => key a ≤ key b := by
  have hweak : StrictWeak fun a b => decide (key a < key b) :=
    StrictWeak.of_key key
  refine ⟨StdSort.perm _ _ hweak, (StdSort.ordered _ _ hweak).imp ?_⟩
  intro a b hab
  exact Std.not_lt.mp (by simpa using hab)

theorem sort_key_flip [StdSort] {β : Type} [LE β] [LT β] [Std.IsLinearOrder β]
    [Std.LawfulOrderLT β] [DecidableLT β] (key : AuctionItem → β)
    (results : List AuctionItem) :
    (StdSort.sort (fun a b => key b < key a) results).Perm results ∧
      (StdSort.sort (fun a b => key b < key a) results).Pairwise
        fun a b => key b ≤ key a := by
  have hweak : StrictWeak fun a b => decide (key b < key a) :=
    (StrictWeak.of_key key).flip
  refine ⟨StdSort.perm _ _ hweak, (StdSort.ordered _ _ hweak).imp ?_⟩
  intro a b hab
  exact Std.not_lt.mp (by simpa using hab)

/-- Sorting by a key in the requested direction. -/
theorem sort_directed [StdSort] {β : Type} [LE β] [LT β] [Std.IsLinearOrder β]
    [Std.LawfulOrderLT β] [DecidableLT β] (key : AuctionItem → β)
    (results : List AuctionItem) (sortOrder : Bytes) :
    let sorted :=
      if (sortOrder != literal "desc") = true then
        StdSort.sort (fun a b => key a < key b) results
      else StdSort.sort (fun a b => key b < key a) results
    sorted.Perm results ∧ sorted.Pairwise fun a b =>
      if sortOrder = literal "desc" then key b ≤ key a else key a ≤ key b := by
  by_cases hdesc : sortOrder = literal "desc"
  · simp only [hdesc, bne_self_eq_false, Bool.false_eq_true, if_false, if_true]
    exact sort_key_flip key results
  · have hasc : (sortOrder != literal "desc") = true := by
      simpa using hdesc
    simp only [hasc, hdesc, if_true, if_false]
    exact sort_key key results

/-- Sorting permutes the selected listings into the requested order. -/
theorem sortResults_spec [StdSort] (criteria : SearchCriteria)
    {results : List AuctionItem}
    (hids : results.Pairwise fun a b => a.id < b.id) :
    (sortResults results criteria.sortBy criteria.sortOrder).Perm results ∧
      (sortResults results criteria.sortBy criteria.sortOrder).Pairwise
        (InOrder criteria) := by
  unfold sortResults InOrder
  split
  · exact sort_directed AuctionItem.price results criteria.sortOrder
  · split
    · exact sort_directed AuctionItem.registrationTime results
        criteria.sortOrder
    · split
      · exact sort_directed (fun a => a.item.name) results criteria.sortOrder
      · exact ⟨List.Perm.refl _, hids⟩

theorem sortResults_perm [StdSort] (results : List AuctionItem)
    (sortBy sortOrder : Bytes) :
    (sortResults results sortBy sortOrder).Perm results := by
  unfold sortResults
  split
  · exact (sort_directed AuctionItem.price results sortOrder).1
  · split
    · exact (sort_directed AuctionItem.registrationTime results sortOrder).1
    · split
      · exact (sort_directed (fun a => a.item.name) results sortOrder).1
      · exact List.Perm.refl _

/-! ## The selected listings -/

/-- What the filter keeps of a set of candidates. -/
def selected (s : Server) (criteria : SearchCriteria) (ids : IdSet) :
    List AuctionItem :=
  ids.toList.filterMap fun id =>
    s.house.auctionItems[id]?.filter (fits s.db criteria)

theorem mem_selected {item : AuctionItem} :
    item ∈ s.selected criteria ids ↔
      ∃ id ∈ ids, s.house.auctionItems[id]? = some item ∧
        fits s.db criteria item = true := by
  simp only [selected, List.mem_filterMap, Std.ExtTreeSet.mem_toList,
    Option.filter_eq_some_iff]

theorem WellFiled.selected_ids (h : s.WellFiled) :
    (s.selected criteria ids).Pairwise fun a b => a.id < b.id := by
  have hids : ids.toList.Pairwise fun a b => a < b :=
    Std.ExtTreeSet.ordered_toList.imp fun hab => Std.compare_eq_lt.mp hab
  refine List.Pairwise.filterMap _ ?_ hids
  intro a b hab x hx y hy
  obtain ⟨hx, -⟩ := Option.filter_eq_some_iff.mp hx
  obtain ⟨hy, -⟩ := Option.filter_eq_some_iff.mp hy
  rw [h.keyed a x hx, h.keyed b y hy]
  exact hab

theorem mem_listings {item : AuctionItem} :
    item ∈ listings house ↔
      ∃ id : UInt64, house.auctionItems[id]? = some item := by
  simp [listings, Std.ExtTreeMap.mem_toList_iff_getElem?_eq_some]

theorem WellFiled.listings_ids (h : s.WellFiled) :
    (listings s.house).Pairwise fun a b => a.id < b.id := by
  rw [listings, List.pairwise_map]
  have hkeys : s.house.auctionItems.toList.Pairwise fun a b => a.1 < b.1 :=
    Std.ExtTreeMap.ordered_keys_toList.imp fun hab => Std.compare_eq_lt.mp hab
  refine hkeys.imp_of_mem ?_
  intro a b ha hb hab
  have ha' := Std.ExtTreeMap.mem_toList_iff_getElem?_eq_some.mp ha
  have hb' := Std.ExtTreeMap.mem_toList_iff_getElem?_eq_some.mp hb
  rw [h.keyed a.1 a.2 ha', h.keyed b.1 b.2 hb']
  exact hab

theorem nodup_of_ids {items : List AuctionItem}
    (h : items.Pairwise fun a b => a.id < b.id) : items.Nodup := by
  refine h.imp ?_
  rintro a b hab rfl
  exact UInt64.lt_irrefl _ hab

/-- The listings of the house that meet the criteria, all of them. -/
def matching (s : Server) (criteria : SearchCriteria) : List AuctionItem :=
  (listings s.house).filter (fits s.db criteria)

theorem mem_matching {item : AuctionItem} :
    item ∈ s.matching criteria ↔
      ∃ id : UInt64, s.house.auctionItems[id]? = some item ∧
        fits s.db criteria item = true := by
  simp [matching, mem_listings]

/-- Complete candidates select every listing that meets the criteria, once. -/
theorem WellFiled.selected_perm (h : s.WellFiled)
    (hcomplete : ∀ id item, s.house.auctionItems[id]? = some item →
      fits s.db criteria item = true → id ∈ ids) :
    (s.selected criteria ids).Perm (s.matching criteria) := by
  have hnodup : (s.matching criteria).Nodup :=
    (nodup_of_ids h.listings_ids).filter _
  rw [List.perm_ext_iff_of_nodup (nodup_of_ids h.selected_ids) hnodup]
  intro item
  rw [mem_selected, mem_matching]
  constructor
  · rintro ⟨id, -, hitem, hfits⟩
    exact ⟨id, hitem, hfits⟩
  · rintro ⟨id, hitem, hfits⟩
    exact ⟨id, hcomplete id item hitem hfits, hitem, hfits⟩

theorem Indexed.selectItems_eq [StdSort] (h : s.Indexed)
    (hsellers : ∀ id, sellers id = .answered)
    (hids : s.house.candidates criteria = some ids) :
    s.selectItems sellers criteria =
      some (.ok (sortResults (s.selected criteria ids) criteria.sortBy
        criteria.sortOrder), s.house) := by
  have hknown : ∀ id ∈ ids.toList, id ∈ s.house.auctionItems := fun id hid =>
    h.wellFiled.candidates_known hids (Std.ExtTreeSet.mem_toList.mp hid)
  simp only [selectItems, hids,
    filterMatches_answered h.readable hsellers hknown]
  rfl

/-! ## Searches and the house -/

theorem mem_of_mem_applyPagination {results : List AuctionItem}
    {page itemsPerPage : UInt32} {item : AuctionItem}
    (h : item ∈ applyPagination results page itemsPerPage) : item ∈ results := by
  have hslice : ∀ start stop, item ∈ (results.take stop).drop start →
      item ∈ results := fun start stop hmem =>
    List.mem_of_mem_take (List.mem_of_mem_drop hmem)
  unfold applyPagination at h
  split at h
  · exact h
  · dsimp only at h
    generalize (((if page < 1 then 1 else page) - 1) * itemsPerPage).toNat =
      start at h
    split at h
    · simp at h
    · exact hslice _ _ h

/-- A search changes nothing in the house, and whatever it computes itself are
open listings of the house. -/
theorem WellFiled.searchUncached_known [StdSort] (h : s.WellFiled)
    {result : Except StoreException (List AuctionItem)} {house : AuctionHouse}
    (hsearch : s.searchUncached sellers criteria = some (result, house)) :
    house = s.house ∧ ∀ results, result = .ok results →
      ∀ item ∈ results, item.status = .active ∧
        ∃ id : UInt64, s.house.auctionItems[id]? = some item := by
  cases hids : s.house.candidates criteria with
  | none => simp [searchUncached, selectItems, hids] at hsearch
  | some ids =>
      have hknown : ∀ id ∈ ids.toList, id ∈ s.house.auctionItems :=
        fun id hid =>
          h.candidates_known hids (Std.ExtTreeSet.mem_toList.mp hid)
      obtain ⟨hhouse, hactive⟩ := @filterMatches_known criteria s.db sellers
        s.house ids.toList hknown
      rcases hfilter : AuctionHouse.filterMatches s.db sellers criteria
        ids.toList s.house with ⟨filtered, house'⟩
      rw [hfilter] at hhouse hactive
      obtain rfl : house' = s.house := hhouse
      cases filtered with
      | error e =>
          simp only [searchUncached, selectItems, hids, hfilter,
            Option.some.injEq, Prod.mk.injEq] at hsearch
          obtain ⟨rfl, rfl⟩ := hsearch
          exact ⟨rfl, by simp⟩
      | ok filtered =>
          simp only [searchUncached, selectItems, hids, hfilter,
            Option.some.injEq, Prod.mk.injEq] at hsearch
          obtain ⟨rfl, rfl⟩ := hsearch
          refine ⟨rfl, ?_⟩
          intro results hresults item hitem
          obtain rfl := Except.ok.inj hresults
          have hsorted : item ∈ sortResults filtered criteria.sortBy
              criteria.sortOrder := mem_of_mem_applyPagination hitem
          obtain ⟨hstatus, id, -, hfound⟩ := hactive filtered rfl item
            ((sortResults_perm filtered _ _).mem_iff.mp hsorted)
          exact ⟨hstatus, id, hfound⟩

/-- A search is answered from the cache and changes nothing, or it computes its
page and may cache it. -/
theorem WellFiled.searchItems_cases [StdSort] {s s' : Server} (h : s.WellFiled)
    {o : SearchOutcomes} {criteria : SearchCriteria}
    {result : Except StoreException (List AuctionItem)}
    (hsearch : s.searchItems o criteria = some (result, s')) :
    (∃ results, s.cachedResults o criteria = some results ∧
        result = .ok results ∧ s' = s) ∨
      (s.cachedResults o criteria = none ∧
        s.searchUncached o.sellers criteria = some (result, s.house) ∧
        ((∃ results, result = .ok results ∧ criteria.isPopularSearch = true ∧
            s' = { s with db :=
              s.db.cacheSearchResults o.setex criteria.hash results }) ∨
          (s' = s ∧ ∀ results, result = .ok results →
            criteria.isPopularSearch = false))) := by
  cases hcached : s.cachedResults o criteria with
  | some results =>
      simp only [searchItems, hcached, Option.some.injEq, Prod.mk.injEq] at hsearch
      obtain ⟨rfl, rfl⟩ := hsearch
      exact Or.inl ⟨results, rfl, rfl, rfl⟩
  | none =>
      right
      cases huncached : s.searchUncached o.sellers criteria with
      | none => simp [searchItems, hcached, huncached] at hsearch
      | some found =>
          obtain ⟨found, house⟩ := found
          obtain ⟨rfl, -⟩ := h.searchUncached_known huncached
          cases found with
          | error e =>
              simp only [searchItems, hcached, huncached, Option.some.injEq,
                Prod.mk.injEq] at hsearch
              obtain ⟨rfl, rfl⟩ := hsearch
              exact ⟨rfl, rfl, Or.inr ⟨rfl, by simp⟩⟩
          | ok results =>
              simp only [searchItems, hcached, huncached, Option.some.injEq,
                Prod.mk.injEq] at hsearch
              obtain ⟨rfl, rfl⟩ := hsearch
              refine ⟨rfl, rfl, ?_⟩
              by_cases hpopular : criteria.isPopularSearch = true
              · left
                exact ⟨results, rfl, hpopular, by simp [hpopular]⟩
              · right
                refine ⟨by simp [hpopular], ?_⟩
                intro _ _
                simpa using hpopular

end Server
end AuctionServer
