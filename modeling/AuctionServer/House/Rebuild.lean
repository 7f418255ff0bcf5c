import AuctionServer.House.Loading
import AuctionServer.House.Runs

/-!
# What a start rebuilds

When every lookup is answered, the constructor loop is exact: it ends exactly
if the seller of every open listing can be read, and then the indices file the
open listings it loaded under their keys and nothing else.
-/

namespace AuctionServer

namespace AuctionHouse

/-- The keys the constructor loop files a listing under. -/
def openKeys (db : Database) (item : AuctionItem) : Set IndexKey :=
  {k | item.status = .active ∧
    k ∈ listingKeys item (db.usernameOf item.sellerId)}

/-- The seller of the listing can be read, if the listing is open. -/
def SellerKnown (db : Database) (item : AuctionItem) : Prop :=
  item.status = .active → db.Readable item.sellerId

variable {db : Database} {house house' : AuctionHouse} {item : AuctionItem}

/-- An answered `updateIndices` files an open listing under all of its keys,
and a closed one nowhere. -/
theorem updateIndices_answered (house : AuctionHouse)
    (hknown : SellerKnown db item) :
    ∃ house', house.updateIndices db .answered item = (.ok (), house') ∧
      SameListings house house' ∧ house.Adds house' (openKeys db item) item.id := by
  by_cases hactive : item.status = .active
  · obtain ⟨info, hinfo, hname⟩ := (hknown hactive).lookup
    obtain ⟨house', heq, hsame, -, hadds⟩ := updateIndices_ok house hactive hinfo
    refine ⟨house', heq, hsame, ?_⟩
    rw [hname] at hadds
    intro k i
    rw [hadds k i]
    simp [openKeys, hactive]
  · refine ⟨house, by simp [updateIndices, hactive], ⟨rfl, rfl⟩, ?_⟩
    intro k i
    simp [openKeys, hactive]

theorem sellerKnown_of_updateIndices
    (h : house.updateIndices db .answered item = (.ok (), house')) :
    SellerKnown db item := by
  intro hactive
  cases hinfo : db.getUserInfo .answered item.sellerId with
  | error e => simp [updateIndices, hactive, hinfo] at h
  | ok info => exact ⟨info, hinfo⟩

/-! ## The constructor loop -/

/-- The next id after the loop went through some items. -/
def countPast (next : UInt64) (items : List AuctionItem) : UInt64 :=
  items.foldl (fun next item => if next ≤ item.id then item.id + 1 else next)
    next

/-- If no id is the last, the loop counts past all of them and not further. -/
theorem countPast_spec {items : List AuctionItem} (next : UInt64)
    (hlast : ∀ item ∈ items, item.id ≠ -1) :
    next ≤ countPast next items ∧
      (∀ item ∈ items, item.id < countPast next items) ∧
      (countPast next items = next ∨
        ∃ item ∈ items, countPast next items = item.id + 1) := by
  induction items generalizing next with
  | nil => exact ⟨UInt64.le_refl _, by simp, Or.inl rfl⟩
  | cons item items ih =>
      let after := if next ≤ item.id then item.id + 1 else next
      have hafter : next ≤ after ∧ item.id < after := by
        have hlt := lt_add_one_of_ne (hlast item (by simp))
        by_cases hle : next ≤ item.id
        · simp only [after, if_pos hle]
          exact ⟨UInt64.le_trans hle (UInt64.le_of_lt hlt), hlt⟩
        · simp only [after, if_neg hle]
          exact ⟨UInt64.le_refl _, UInt64.not_le.mp hle⟩
      have hcount : countPast next (item :: items) = countPast after items := rfl
      obtain ⟨hge, hbelow, hreached⟩ := ih after fun item' hitem' =>
        hlast item' (List.mem_cons_of_mem _ hitem')
      rw [hcount]
      refine ⟨UInt64.le_trans hafter.1 hge, ?_, ?_⟩
      · intro item' hitem'
        rcases List.mem_cons.mp hitem' with rfl | hmem
        · exact UInt64.lt_of_lt_of_le hafter.2 hge
        · exact hbelow item' hmem
      · rcases hreached with heq | ⟨item', hitem', heq⟩
        · by_cases hle : next ≤ item.id
          · refine Or.inr ⟨item, by simp, ?_⟩
            rw [heq]
            exact if_pos hle
          · left
            rw [heq]
            exact if_neg hle
        · exact Or.inr ⟨item', List.mem_cons_of_mem _ hitem', heq⟩

/-- The house holds exactly the listings of `loaded` and files exactly the open
ones. -/
structure Rebuilt (db : Database) (loaded : List AuctionItem)
    (house : AuctionHouse) : Prop where
  items : ∀ id item, house.auctionItems[id]? = some item →
    item ∈ loaded ∧ item.id = id
  kept : ∀ item ∈ loaded, item.id ∈ house.auctionItems
  next : house.nextAuctionId = countPast 1 loaded
  files : ∀ k i, house.Files k i ↔
    ∃ item ∈ loaded, k ∈ openKeys db item ∧ i = item.id
  noEmpty : house.NoEmptyBucket

theorem rebuilt_initial (db : Database) : Rebuilt db [] initial where
  items := by
    intro id item hitem
    simp [initial] at hitem
  kept := by simp
  next := rfl
  files := by simp [not_files_initial]
  noEmpty := noEmptyBucket_initial

variable {loaded : List AuctionItem}

theorem Rebuilt.loadItem (h : Rebuilt db loaded house)
    (hknown : SellerKnown db item) :
    ∃ house', house.loadItem db .answered item = (.ok (), house') ∧
      Rebuilt db (loaded ++ [item]) house' := by
  obtain ⟨filed, hupdate, hsame, hadds⟩ :=
    updateIndices_answered (house.setItem item.id item) hknown
  have hnoEmpty :=
    (h.noEmpty.setItem item.id item).updateIndices db .answered item
  rw [hupdate] at hnoEmpty
  have hload : house.loadItem db .answered item =
      (.ok (), { filed with
        nextAuctionId :=
          if house.nextAuctionId ≤ item.id then item.id + 1
          else house.nextAuctionId }) := by
    have hnext : filed.nextAuctionId = house.nextAuctionId := hsame.2
    simp only [AuctionHouse.loadItem, hupdate, hnext]
    split
    · rfl
    · rw [← hnext]
  have hitems : filed.auctionItems = house.auctionItems.insert item.id item :=
    hsame.1
  refine ⟨_, hload, ?_, ?_, ?_, ?_, ?_⟩
  · intro id item' hitem'
    simp only [hitems, Std.ExtTreeMap.getElem?_insert] at hitem'
    split at hitem'
    · next hid =>
        obtain rfl := Option.some.inj hitem'
        exact ⟨by simp, by simpa using hid⟩
    · obtain ⟨hmem, hid⟩ := h.items id item' hitem'
      exact ⟨List.mem_append_left _ hmem, hid⟩
  · intro item' hitem'
    simp only [hitems, Std.ExtTreeMap.mem_insert]
    rcases List.mem_append.mp hitem' with hold | hnew
    · exact Or.inr (h.kept item' hold)
    · obtain rfl : item' = item := by simpa using hnew
      simp
  · rw [countPast, List.foldl_append]
    change _ = List.foldl _ (countPast 1 loaded) [item]
    rw [← h.next]
    rfl
  · intro k i
    have hfiles := hadds k i
    have hold := h.files k i
    rw [AuctionHouse.files_setItem, hold] at hfiles
    have hcounted : ∀ next, AuctionHouse.Files
        { filed with nextAuctionId := next } k i ↔ filed.Files k i := by
      intro next
      cases k <;> exact Iff.rfl
    rw [hcounted, hfiles]
    simp [or_and_right, exists_or]
  · exact ⟨hnoEmpty.type, hnoEmpty.seller, hnoEmpty.price, hnoEmpty.keyword⟩

variable {items : List AuctionItem} {sellers : ℕ → ReadOutcome}

theorem Rebuilt.loadItems (h : Rebuilt db loaded house)
    (hsellers : ∀ n, sellers n = .answered)
    (hknown : ∀ item ∈ items, SellerKnown db item) :
    ∃ house', loadItems db sellers items house = .ok house' ∧
      Rebuilt db (loaded ++ items) house' := by
  induction items generalizing sellers loaded house with
  | nil => exact ⟨house, rfl, by simpa using h⟩
  | cons item items ih =>
      obtain ⟨next, hload, hnext⟩ := h.loadItem (hknown item (by simp))
      obtain ⟨house', hrest, hhouse'⟩ := ih hnext (fun n => hsellers (n + 1))
        fun item' hitem' => hknown item' (List.mem_cons_of_mem _ hitem')
      refine ⟨house', ?_, by simpa using hhouse'⟩
      simp only [AuctionHouse.loadItems, hsellers 0, hload]
      exact hrest

/-- A loop that ends has read the seller of every open listing. -/
theorem sellerKnown_of_loadItems (hsellers : ∀ n, sellers n = .answered)
    (h : loadItems db sellers items house = .ok house') :
    ∀ item ∈ items, SellerKnown db item := by
  induction items generalizing sellers house with
  | nil => simp
  | cons item items ih =>
      rcases hload : house.loadItem db (sellers 0) item with ⟨result, next⟩
      cases result with
      | error e => simp [AuctionHouse.loadItems, hload] at h
      | ok u =>
          simp only [AuctionHouse.loadItems, hload] at h
          have hrest := ih (fun n => hsellers (n + 1)) h
          rcases hupdate : (house.setItem item.id item).updateIndices db
            (sellers 0) item with ⟨result, filed⟩
          rw [hsellers 0] at hupdate
          cases result with
          | error e => simp [AuctionHouse.loadItem, hsellers 0, hupdate] at hload
          | ok u =>
              intro item' hitem'
              rcases List.mem_cons.mp hitem' with rfl | hmem
              · exact sellerKnown_of_updateIndices hupdate
              · exact hrest item' hmem

/-- Listings with distinct ids are all kept. -/
theorem Rebuilt.getElem?_eq_some_iff (h : Rebuilt db loaded house)
    (hdistinct : (loaded.map AuctionItem.id).Nodup) {id : UInt64} :
    house.auctionItems[id]? = some item ↔ item ∈ loaded ∧ item.id = id := by
  constructor
  · exact h.items id item
  · rintro ⟨hmem, rfl⟩
    have hkept := h.kept item hmem
    rw [Std.ExtTreeMap.mem_iff_isSome_getElem?, Option.isSome_iff_exists] at hkept
    obtain ⟨item', hitem'⟩ := hkept
    obtain ⟨hmem', hid⟩ := h.items item.id item' hitem'
    obtain rfl : item' = item :=
      List.inj_on_of_nodup_map hdistinct hmem' hmem hid
    exact hitem'

/-! ## The constructor -/

variable {order : List AuctionDocument}

/-- With every lookup answered, the constructor returns exactly if the seller
of every open listing can be read. -/
theorem construct_answered (hsellers : ∀ n, sellers n = .answered) :
    (∃ house, construct db order none sellers = .ok house) ↔
      ∀ doc ∈ order, SellerKnown db (bsonToItem doc) := by
  constructor
  · rintro ⟨house, h⟩ doc hdoc
    exact sellerKnown_of_loadItems hsellers h _ (List.mem_map_of_mem hdoc)
  · intro hknown
    have hitems : ∀ item ∈ order.map bsonToItem, SellerKnown db item := by
      simpa using hknown
    obtain ⟨house, h, -⟩ := (rebuilt_initial db).loadItems hsellers hitems
    exact ⟨house, h⟩

theorem rebuilt_of_construct (hsellers : ∀ n, sellers n = .answered)
    (h : construct db order none sellers = .ok house) :
    Rebuilt db (order.map bsonToItem) house := by
  have hknown := sellerKnown_of_loadItems hsellers h
  obtain ⟨house', h', hrebuilt⟩ := (rebuilt_initial db).loadItems hsellers hknown
  obtain rfl : house = house' := Except.ok.inj (h.symm.trans h')
  rw [List.nil_append] at hrebuilt
  exact hrebuilt

end AuctionHouse

namespace Server

/-- Distinct documents decode to listings with distinct ids. -/
theorem nodup_loaded {order auctions : List AuctionDocument}
    (hperm : order.Perm auctions)
    (hdistinct : (auctions.map AuctionDocument.id).Nodup) :
    ((order.map bsonToItem).map AuctionItem.id).Nodup := by
  have hids : (order.map bsonToItem).map AuctionItem.id =
      (order.map AuctionDocument.id).map Int64.toUInt64 := by
    rw [List.map_map, List.map_map]
    rfl
  rw [hids]
  exact ((hperm.map _).nodup_iff.mpr hdistinct).map toUInt64_injective

end Server
end AuctionServer
