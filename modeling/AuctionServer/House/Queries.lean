import AuctionServer.House.Refinement

/-!
# Queries over the collection

`getPopularItems` and `getItemsByCategory` ask MongoDB for the open listings
that `searchItems` finds through the indices.  While the documents and the
memory agree, both ways show the same listings, up to their order and to the
limit of the query.
-/

namespace AuctionServer

namespace Database

/-- `options.limit(count)`, where zero is no limit. -/
def limited {α : Type} (count : UInt32) (found : List α) : List α :=
  if count = 0 then found else found.take count.toNat

/-- A query with a filter and a limit.  The documents that pass the filter come
in some order, `none` if `order` is no order of them, and the cursor may fail
after any number of them, which shortens the list. -/
def findAuctions (db : Database) (filter : AuctionDocument → Bool)
    (order : List AuctionDocument) (failsAfter : Option ℕ) (count : UInt32) :
    Option (List AuctionItem) :=
  if order.isPerm (db.auctions.filter filter) then
    some (loadAllAuctionItems (limited count order) failsAfter)
  else none

/-- `getPopularItems`.  No document has the field `views` that the query sorts
by, so every order of the open listings is one it may use. -/
def getPopularItems (db : Database) (order : List AuctionDocument)
    (failsAfter : Option ℕ) (count : UInt32) : Option (List AuctionItem) :=
  db.findAuctions (fun doc => doc.status.1 == AuctionStatus.active.code)
    order failsAfter count

/-- `getItemsByCategory`. -/
def getItemsByCategory (db : Database) (order : List AuctionDocument)
    (failsAfter : Option ℕ) (category count : UInt32) :
    Option (List AuctionItem) :=
  db.findAuctions
    (fun doc => doc.status.1 == AuctionStatus.active.code &&
      doc.item.type == category.toInt32)
    order failsAfter count

variable {db : Database} {order : List AuctionDocument} {failsAfter : Option ℕ}
  {count : UInt32} {items : List AuctionItem}

theorem limited_sublist {α : Type} (count : UInt32) (found : List α) :
    (limited count found).Sublist found := by
  unfold limited
  split
  · exact List.Sublist.refl _
  · exact List.take_sublist _ _

theorem length_limited {α β : Type} {found : List α} {shown : List β}
    (h : found.length = shown.length) :
    (limited count found).length = (limited count shown).length := by
  unfold limited
  split
  · exact h
  · simp [h]

theorem loadAllAuctionItems_sublist :
    (loadAllAuctionItems order failsAfter).Sublist (order.map bsonToItem) := by
  cases failsAfter with
  | none => exact List.Sublist.refl _
  | some n => exact (List.take_sublist n order).map bsonToItem

/-- What a query returns are listings that pass the filter, each as often as
it is stored, and all that the limit allows if the cursor does not fail. -/
theorem findAuctions_spec {filter : AuctionDocument → Bool}
    (h : db.findAuctions filter order failsAfter count = some items) :
    items.Subperm ((db.auctions.filter filter).map bsonToItem) ∧
      (failsAfter = none → items.length =
        (limited count (db.auctions.filter filter)).length) := by
  unfold findAuctions at h
  split at h
  · next hperm =>
      obtain rfl := Option.some.inj h
      have hall := List.isPerm_iff.mp hperm
      refine ⟨?_, ?_⟩
      · have hsub :
            (loadAllAuctionItems (limited count order) failsAfter).Sublist
              (order.map bsonToItem) :=
          loadAllAuctionItems_sublist.trans
            ((limited_sublist count order).map bsonToItem)
        exact hsub.subperm.trans (hall.map bsonToItem).subperm
      · rintro rfl
        rw [loadAllAuctionItems, List.length_map]
        exact length_limited hall.length_eq
  · cases h

end Database

/-- The stored code of an open listing. -/
theorem AuctionStatus.ofCode_eq_active {c : StatusCode} :
    AuctionStatus.ofCode c = .active ↔ c.1 = AuctionStatus.active.code := by
  constructor
  · intro h
    rw [← AuctionStatus.toCode_ofCode c, h]
    rfl
  · intro h
    simp [AuctionStatus.ofCode, h, AuctionStatus.code]

/-- The stored type of an item. -/
theorem type_bsonToItem (doc : AuctionDocument) (category : UInt32) :
    (bsonToItem doc).item.type = category ↔
      doc.item.type = category.toInt32 := by
  change doc.item.type.toUInt32 = category ↔ _
  constructor
  · rintro rfl
    simp
  · rintro h
    simp [h]

namespace Server

variable {s : Server} {db : Database} {criteria : SearchCriteria}

/-- While they agree, the documents are the listings. -/
theorem Agreeing.documents_perm (h : s.Agreeing) :
    (s.db.auctions.map bsonToItem).Perm (listings s.house) := by
  have hids : ((s.db.auctions.map bsonToItem).map AuctionItem.id).Nodup := by
    rw [List.map_map]
    exact h.orderly.tidy.distinct
  rw [List.perm_ext_iff_of_nodup hids.of_map
    (nodup_of_ids h.orderly.wellFiled.listings_ids)]
  intro item
  have hagrees : ∀ id : UInt64, s.house.auctionItems[id]? = some item ↔
      ∃ doc ∈ s.db.auctions, bsonToItem doc = item ∧ format.key doc = id :=
    fun id => h.agrees id item
  rw [mem_listings, List.mem_map]
  constructor
  · rintro ⟨doc, hdoc, rfl⟩
    exact ⟨_, (hagrees _).mpr ⟨doc, hdoc, rfl, rfl⟩⟩
  · rintro ⟨id, hitem⟩
    obtain ⟨doc, hdoc, heq, -⟩ := (hagrees id).mp hitem
    exact ⟨doc, hdoc, heq⟩

/-- A filter on the documents that says what the criteria say selects the
matching listings. -/
theorem Agreeing.filter_perm (h : s.Agreeing) {filter : AuctionDocument → Bool}
    (hfilter : ∀ doc, filter doc = fits s.db criteria (bsonToItem doc)) :
    ((s.db.auctions.filter filter).map bsonToItem).Perm
      (s.matching criteria) := by
  have hsame : filter = fits s.db criteria ∘ bsonToItem := funext hfilter
  rw [hsame, ← List.filter_map]
  exact h.documents_perm.filter _

/-- The listings are among those an unpaged search finds, and as many as the
limit allows if the query does not fail. -/
def ListsFound [StdSort] (s : Server) (o : SearchOutcomes)
    (criteria : SearchCriteria) (failsAfter : Option ℕ) (count : UInt32)
    (items : List AuctionItem) : Prop :=
  ∃ results s', s.searchItems o criteria = some (.ok results, s') ∧
    items.Subperm results ∧
    (failsAfter = none → items.length = (Database.limited count results).length)

variable [StdSort] {o : SearchOutcomes} {order : List AuctionDocument}
  {failsAfter : Option ℕ} {count : UInt32} {items : List AuctionItem}

/-- An unpaged search without a keyword finds every matching listing. -/
theorem Indexed.searchItems_perm (h : s.Indexed)
    (hsellers : ∀ id, o.sellers id = .answered)
    (hmiss : s.cachedResults o criteria = none)
    (hkeyword : criteria.keyword = []) (hprices : criteria.PricesOrdered)
    (hpage : criteria.itemsPerPage = 0) :
    ∃ results s', s.searchItems o criteria = some (.ok results, s') ∧
      results.Perm (s.matching criteria) := by
  obtain ⟨ids, hids, hcomplete⟩ :=
    h.candidates_complete (Or.inl hkeyword) hprices
  have huncached : s.searchUncached o.sellers criteria =
      some (.ok (sortResults (s.selected criteria ids) criteria.sortBy
        criteria.sortOrder), s.house) := by
    simp [searchUncached, h.selectItems_eq hsellers hids, applyPagination, hpage]
  have hperm := (sortResults_perm (s.selected criteria ids) criteria.sortBy
    criteria.sortOrder).trans (h.wellFiled.selected_perm hcomplete)
  exact ⟨_, _, by simp only [searchItems, hmiss, huncached]; rfl, hperm⟩

/-- A query whose filter says what the criteria say lists what the search
finds. -/
theorem InMarket.findAuctions_lists (h : s.InMarket db)
    (hsellers : ∀ id, o.sellers id = .answered)
    (hmiss : s.cachedResults o criteria = none)
    (hkeyword : criteria.keyword = []) (hprices : criteria.PricesOrdered)
    (hpage : criteria.itemsPerPage = 0) {filter : AuctionDocument → Bool}
    (hfilter : ∀ doc, filter doc = fits s.db criteria (bsonToItem doc))
    (hquery : s.db.findAuctions filter order failsAfter count = some items) :
    s.ListsFound o criteria failsAfter count items := by
  obtain ⟨results, s', hsearch, hperm⟩ :=
    h.indexed.searchItems_perm hsellers hmiss hkeyword hprices hpage
  obtain ⟨hsub, hlength⟩ := Database.findAuctions_spec hquery
  have hfound := (h.agreeing.filter_perm hfilter).trans hperm.symm
  refine ⟨results, s', hsearch, hsub.trans hfound.subperm, ?_⟩
  intro hfails
  rw [hlength hfails]
  refine Database.length_limited ?_
  rw [← hfound.length_eq, List.length_map]

omit [StdSort] in
theorem fits_unpaged {category : UInt32} {doc : AuctionDocument} :
    fits s.db { itemType := category, itemsPerPage := 0 } (bsonToItem doc) =
      (doc.status.1 == AuctionStatus.active.code &&
        (category == 0 || doc.item.type == category.toInt32)) := by
  rw [Bool.eq_iff_iff]
  simp [fits, withinBounds_iff, nameMatches, AuctionStatus.ofCode_eq_active,
    type_bsonToItem, or_iff_not_imp_left]

variable {sellers : ℕ → ReadOutcome} {loaded : List AuctionDocument}

/-- At the end of a run of answered calls the two queries list what the searches
without a page find: the popular items are any of the open listings, and the
items of a category are the open listings of that type. -/
theorem queries_list_found
    (hdistinct : (db.auctions.map AuctionDocument.id).Nodup)
    (hlast : ∀ doc ∈ db.auctions, doc.id.toUInt64 ≠ -1) (hsolvent : db.Solvent)
    (hanswered : ∀ n, sellers n = .answered) {calls : List Call}
    {es : List ServerEvent}
    (hserve : serve db loaded none sellers calls = some (es, s))
    (hanswers : ∀ call ∈ calls, Call.StoreAnswers call)
    (hundisturbed : ∀ e ∈ es, e.before.Undisturbed e.input)
    (hsellers : ∀ id, o.sellers id = .answered) :
    (s.db.getPopularItems order failsAfter count = some items →
      s.ListsFound o { itemsPerPage := 0 } failsAfter count items) ∧
    ∀ category, category ≠ 0 →
      s.cachedResults o { itemType := category, itemsPerPage := 0 } = none →
      s.db.getItemsByCategory order failsAfter category count = some items →
        s.ListsFound o { itemType := category, itemsPerPage := 0 } failsAfter
          count items := by
  obtain ⟨s₀, hstart, hrun⟩ := serve_eq_some.mp hserve
  have hmarket : s.InMarket db :=
    (Machine.run_invariant (inMarket_preserves db) hrun
      (fun e he => ⟨hanswers e.input (Machine.run_input_mem hrun e he),
        hundisturbed e he⟩)
      (hstart.inMarket hdistinct hlast hsolvent hanswered)).1
  refine ⟨?_, ?_⟩
  · intro hquery
    refine hmarket.findAuctions_lists hsellers (by rfl) rfl (Or.inl rfl) rfl
      ?_ hquery
    intro doc
    simp [fits_unpaged (s := s)]
  · intro category hcategory hmiss hquery
    refine hmarket.findAuctions_lists hsellers hmiss rfl (Or.inl rfl) rfl ?_
      hquery
    intro doc
    rw [fits_unpaged, beq_eq_false_iff_ne.mpr hcategory, Bool.false_or]

/-- The second listing of the run below. -/
def openShield : AuctionItem :=
  newListing 2 1000 7 (itemNamed "oak shield") 60

omit [StdSort] in
/-- The first of two listings is sold, and the category shows the second. -/
theorem queries_list_found_shield :
    ∃ es s, @serve StdSort.insertion market [] none (fun _ => .answered)
        [offer "iron sword", offer "oak shield", purchase 1] = some (es, s) ∧
      s.db.getItemsByCategory [itemToBson openShield] none 2 10 =
        some [openShield] ∧
      @ListsFound StdSort.insertion s
        ⟨.answered, fun _ => default, fun _ => .answered, .done⟩
        { itemType := 2, itemsPerPage := 0 } none 10 [openShield] := by
  obtain ⟨es, s, hserve, hes⟩ :=
    @exists_serve StdSort.insertion market [] none (fun _ => .answered)
      [offer "iron sword", offer "oak shield", purchase 1]
      (fun es s => es.all (fun e => decide (e.before.Undisturbed e.input)) &&
        (s.cachedResults ⟨.answered, fun _ => default, fun _ => .answered, .done⟩
          { itemType := 2, itemsPerPage := 0 }).isNone &&
        decide (s.db.getItemsByCategory [itemToBson openShield] none 2 10 =
          some [openShield])) (by decide)
  simp only [Bool.and_eq_true, List.all_eq_true, decide_eq_true_eq,
    Option.isNone_iff_eq_none] at hes
  obtain ⟨⟨hundisturbed, hmiss⟩, hquery⟩ := hes
  refine ⟨es, s, hserve, hquery, (@queries_list_found s market StdSort.insertion
    _ _ none 10 _ _ [] (by decide) (by decide) market_solvent (fun _ => rfl) _ es
    hserve ?_ hundisturbed (fun _ => rfl)).2 2 (by decide) hmiss hquery⟩
  intro call hcall
  simp only [List.mem_cons, List.not_mem_nil, or_false] at hcall
  rcases hcall with rfl | rfl | rfl
  · exact storeAnswers_offer _
  · exact storeAnswers_offer _
  · exact storeAnswers_purchase 1

end Server
end AuctionServer
