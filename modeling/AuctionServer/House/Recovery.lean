import AuctionServer.House.Exactness
import AuctionServer.House.Lifecycle

/-!
# A restart recovers the house

A running house that is up to date holds exactly what its documents say, so a
new house over the same documents ends up with the same listings, the same
next id and the same three indices, in whatever order the documents come.
The keyword index is not rebuilt.
-/

namespace AuctionServer

open AuctionHouse (listingKeys openKeys)

/-- Everything that is rebuilt is the same. -/
structure AuctionHouse.SameHouse (house house' : AuctionHouse) : Prop where
  auctionItems : house'.auctionItems = house.auctionItems
  itemTypeIndex : house'.itemTypeIndex = house.itemTypeIndex
  sellerIndex : house'.sellerIndex = house.sellerIndex
  priceIndex : house'.priceIndex = house.priceIndex
  nextAuctionId : house'.nextAuctionId = house.nextAuctionId

namespace Server

/-- The next id follows the id of some listing, once there is one. -/
def NextFollows (s : Server) : Prop :=
  s.house.nextAuctionId = 1 ∨
    ∃ (id : UInt64) (item : AuctionItem),
      s.house.auctionItems[id]? = some item ∧ s.house.nextAuctionId = id + 1

variable {s s' : Server} {db : Database} {registered : Set UInt64}

theorem NextFollows.closes {buyers : Set UInt32} (h : s.NextFollows)
    (hcloses : Closes buyers s s') : s'.NextFollows := by
  rw [NextFollows, hcloses.next]
  rcases h with hone | ⟨id, item, hitem, hnext⟩
  · exact Or.inl hone
  · obtain ⟨new, hnew, -⟩ := hcloses.entries.descendant
      (show s.book.entries id = some item from hitem)
    exact Or.inr ⟨id, new, hnew, hnext⟩

/-- A stored registration is the listing the next id follows. -/
theorem nextFollows_registerItem (s : Server) {o : RegisterOutcomes}
    (hinsert : o.insert = .done) (now : Time) (sellerId : UInt32) (item : Item)
    (price : UInt32) :
    (s.registerItem o now sellerId item price).2.NextFollows := by
  obtain ⟨keys, house, heq, hnext, hitems, -⟩ :=
    registerItem_of_done s now sellerId item price hinsert
  rw [heq]
  refine Or.inr ⟨s.house.nextAuctionId,
    newListing s.house.nextAuctionId now sellerId item price, ?_, hnext⟩
  rw [hitems]
  exact Std.ExtTreeMap.getElem?_insert_self

theorem nextFollows_preserves [StdSort] :
    machine.Preserves
      (fun e => e.input.StoreAnswers ∧ e.input.InProcess ∧ e.before.WellFiled)
      NextFollows := by
  rintro e hfires ⟨hanswers, hprocess, hwell⟩ h
  cases hregistration : e.input.isRegistration with
  | false =>
      have hbuyer : e.input.BuyerIn Set.univ := by
        cases e.input <;> trivial
      exact h.closes (step_closes hfires hwell hprocess hbuyer hregistration)
  | true =>
      obtain ⟨s, call, reply, s'⟩ := e
      cases call with
      | registerItem o now sellerId item price =>
          obtain ⟨-, rfl⟩ := fires_registerItem.mp hfires
          exact nextFollows_registerItem s hanswers.1 now sellerId item price
      | _ => cases hregistration

/-! ## One restart -/

variable {order : List AuctionDocument} {house : AuctionHouse}

/-- In the state of an agreeing server, the loaded items are its listings. -/
theorem Agreeing.mem_loaded (h : s.Agreeing) (hperm : order.Perm s.db.auctions)
    {id : UInt64} {item : AuctionItem} :
    (item ∈ order.map bsonToItem ∧ item.id = id) ↔
      s.house.auctionItems[id]? = some item := by
  rw [show s.house.auctionItems[id]? = some item ↔ _ from h.agrees id item,
    List.mem_map]
  constructor
  · rintro ⟨⟨doc, hdoc, rfl⟩, hid⟩
    exact ⟨doc, hperm.mem_iff.mp hdoc, rfl, hid⟩
  · rintro ⟨doc, hdoc, rfl, hid⟩
    exact ⟨⟨doc, hperm.mem_iff.mpr hdoc, rfl⟩, hid⟩

/-- The next id that is counted up is the one the running house has. -/
theorem UpToDate.countPast_eq (h : s.UpToDate db registered)
    (hnext : s.NextFollows) (hperm : order.Perm s.db.auctions) :
    AuctionHouse.countPast 1 (order.map bsonToItem) = s.house.nextAuctionId := by
  have hmem : ∀ item, item ∈ order.map bsonToItem ↔
      s.house.auctionItems[item.id]? = some item := by
    intro item
    rw [← h.agreeing.mem_loaded hperm]
    simp
  have hbelow : ∀ item ∈ order.map bsonToItem,
      item.id < s.house.nextAuctionId := by
    intro item hitem
    obtain ⟨doc, hdoc, rfl⟩ := List.mem_map.mp hitem
    exact h.agreeing.orderly.tidy.fresh doc (hperm.mem_iff.mp hdoc)
  obtain ⟨hone, hcounted, hreached⟩ := AuctionHouse.countPast_spec 1
    fun item hitem => ne_last_of_lt (hbelow item hitem)
  apply UInt64.le_antisymm
  · rcases hreached with heq | ⟨item, hitem, heq⟩
    · rw [heq]
      rcases hnext with hone' | ⟨id, item, hitem, hid⟩
      · rw [hone']
        exact UInt64.le_refl _
      · have hlt := h.agreeing.orderly.wellFiled.keyed id item hitem
        have hless := hbelow item ((hmem item).mpr (by rw [hlt]; exact hitem))
        grind
    · have hless := hbelow item hitem
      rw [heq]
      grind
  · rcases hnext with hone' | ⟨id, item, hitem, hid⟩
    · rw [hone']
      exact hone
    · have hkey := h.agreeing.orderly.wellFiled.keyed id item hitem
      have hless := hcounted item ((hmem item).mpr (by rw [hkey]; exact hitem))
      rw [hid, ← hkey]
      grind

/-- What is rebuilt holds the listings of the running house. -/
theorem UpToDate.rebuilt_items (h : s.UpToDate db registered)
    (hperm : order.Perm s.db.auctions)
    (hrebuilt : AuctionHouse.Rebuilt s.db (order.map bsonToItem) house)
    (id : UInt64) (item : AuctionItem) :
    house.auctionItems[id]? = some item ↔
      s.house.auctionItems[id]? = some item := by
  have hdistinct : (s.db.auctions.map AuctionDocument.id).Nodup := by
    have hkeys := h.agreeing.orderly.tidy.distinct
    apply List.Nodup.of_map Int64.toUInt64
    rw [List.map_map]
    exact hkeys
  rw [hrebuilt.getElem?_eq_some_iff (nodup_loaded hperm hdistinct)]
  exact h.agreeing.mem_loaded hperm

/-- Apart from keywords, a listing belongs where the constructor files it. -/
theorem mem_properKeys_iff {k : IndexKey} (hk : ∀ word, k ≠ .keyword word)
    (item : AuctionItem) (name : Option Bytes) :
    k ∈ properKeys registered item name ↔ k ∈ listingKeys item name := by
  refine ⟨?_, Or.inl⟩
  rintro (hlisting | ⟨-, word, -, rfl⟩)
  · exact hlisting
  · exact (hk word rfl).elim

/-- What is rebuilt files what the running house files, keywords apart. -/
theorem UpToDate.rebuilt_files (h : s.UpToDate db registered)
    (hperm : order.Perm s.db.auctions)
    (hrebuilt : AuctionHouse.Rebuilt s.db (order.map bsonToItem) house)
    {k : IndexKey} (hk : ∀ word, k ≠ .keyword word) (id : UInt64) :
    house.Files k id ↔ s.house.Files k id := by
  rw [hrebuilt.files, h.represented.files]
  simp only [mem_properKeys_iff hk, ← h.agreeing.mem_loaded hperm, openKeys,
    Set.mem_ofPred_eq, Set.mem_empty_iff_false, or_false]
  constructor
  · rintro ⟨item, hmem, ⟨hactive, hlisting⟩, rfl⟩
    exact ⟨item, ⟨hmem, rfl⟩, hactive, hlisting⟩
  · rintro ⟨item, ⟨hmem, rfl⟩, hactive, hlisting⟩
    exact ⟨item, hmem, ⟨hactive, hlisting⟩, rfl⟩

/-- A new house over the documents of an up-to-date one is the same house. -/
theorem UpToDate.recovers (h : s.UpToDate db registered) (hnext : s.NextFollows)
    (hperm : order.Perm s.db.auctions) {sellers : ℕ → ReadOutcome}
    (hsellers : ∀ n, sellers n = .answered) :
    ∃ house, AuctionHouse.construct s.db order none sellers = .ok house ∧
      s.house.SameHouse house := by
  have hknown : ∀ doc ∈ order, AuctionHouse.SellerKnown s.db (bsonToItem doc) := by
    intro doc hdoc hactive
    have hitem := (h.agreeing.mem_loaded hperm).mp
      ⟨List.mem_map_of_mem hdoc, rfl⟩
    exact h.represented.readable _ _ hitem (Or.inl hactive)
  obtain ⟨house, hhouse⟩ := (AuctionHouse.construct_answered hsellers).mpr hknown
  have hrebuilt := AuctionHouse.rebuilt_of_construct hsellers hhouse
  have hfiles : ∀ k id, (∀ word, k ≠ .keyword word) →
      (house.Files k id ↔ s.house.Files k id) := fun k id hk =>
    h.rebuilt_files hperm hrebuilt hk id
  have hbuckets := h.represented.noEmpty
  refine ⟨house, hhouse, ?_, ?_, ?_, ?_, ?_⟩
  · apply Std.ExtTreeMap.ext_getElem?
    intro id
    exact Option.ext fun item => h.rebuilt_items hperm hrebuilt id item
  · exact Buckets.ext_holds hrebuilt.noEmpty.type hbuckets.type
      fun type id => hfiles (.type type) id (by simp)
  · exact Buckets.ext_holds hrebuilt.noEmpty.seller hbuckets.seller
      fun name id => hfiles (.seller name) id (by simp)
  · exact Buckets.ext_holds hrebuilt.noEmpty.price hbuckets.price
      fun price id => hfiles (.price price) id (by simp)
  · rw [hrebuilt.next]
    exact h.countPast_eq hnext hperm

/-! ## Runs -/

variable [StdSort]

end Server
end AuctionServer
