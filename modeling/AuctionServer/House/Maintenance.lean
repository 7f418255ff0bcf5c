import AuctionServer.House.Indices
import AuctionServer.Store.Effects

/-!
# Index maintenance

The four indices read as one relation between index keys and ids.  In these
terms `updateIndices` and `indexItemKeywords` file one id under a set of keys,
and `removeFromIndices` withdraws one id from a set of keys; which keys depends
on the seller lookup.  None of them touches the listings or the next id, even
when a lookup cuts them short.
-/

namespace AuctionServer

/-- A key of one of the four indices. -/
inductive IndexKey where
  | type (type : UInt32)
  | seller (name : Bytes)
  | price (price : UInt32)
  | keyword (word : Bytes)
deriving DecidableEq

namespace AuctionHouse

/-- The index of the key files `id` under it. -/
def Files (house : AuctionHouse) : IndexKey → UInt64 → Prop
  | .type type, id => house.itemTypeIndex.Holds type id
  | .seller name, id => house.sellerIndex.Holds name id
  | .price price, id => house.priceIndex.Holds price id
  | .keyword word, id => house.keywordIndex.Holds word id

/-- `house'` files `id` under `keys` in addition to what `house` files. -/
def Adds (house house' : AuctionHouse) (keys : Set IndexKey) (id : UInt64) :
    Prop :=
  ∀ k i, house'.Files k i ↔ house.Files k i ∨ (k ∈ keys ∧ i = id)

/-- `house'` files what `house` files, less `id` under `keys`. -/
def Withdraws (house house' : AuctionHouse) (keys : Set IndexKey)
    (id : UInt64) : Prop :=
  ∀ k i, house'.Files k i ↔ house.Files k i ∧ ¬ (k ∈ keys ∧ i = id)

/-- The listings and the next id are the same. -/
def SameListings (house house' : AuctionHouse) : Prop :=
  house'.auctionItems = house.auctionItems ∧
    house'.nextAuctionId = house.nextAuctionId

theorem Adds.trans {house house' house'' : AuctionHouse}
    {keys keys' : Set IndexKey} {id : UInt64} (h : house.Adds house' keys id)
    (h' : house'.Adds house'' keys' id) :
    house.Adds house'' (keys ∪ keys') id := by
  intro k i
  rw [h' k i, h k i, Set.mem_union]
  tauto

theorem not_files_initial (k : IndexKey) (id : UInt64) :
    ¬ initial.Files k id := by
  cases k <;> exact Buckets.not_holds_empty

/-- Filing does not depend on what the listings are. -/
@[simp] theorem files_setItem {house : AuctionHouse} {id i : UInt64}
    {item : AuctionItem} {k : IndexKey} :
    (house.setItem id item).Files k i ↔ house.Files k i := by
  cases k <;> exact Iff.rfl

/-! ## Adding a listing -/

/-- The keys `updateIndices` files a listing under. -/
def listingKeys (item : AuctionItem) (name : Option Bytes) : Set IndexKey :=
  {k | k = .type item.item.type ∨ k = .price item.price ∨
    ∃ n, name = some n ∧ k = .seller n}

/-- A completed `updateIndices` files the id under the type, the price and,
when there is a seller, the seller's name. -/
theorem updateIndices_ok (house : AuctionHouse) {db : Database}
    {seller : ReadOutcome} {item : AuctionItem} {info : Option UserInfo}
    (hactive : item.status = .active)
    (hinfo : db.getUserInfo seller item.sellerId = .ok info) :
    ∃ house', house.updateIndices db seller item = (.ok (), house') ∧
      SameListings house house' ∧
      house'.keywordIndex = house.keywordIndex ∧
      house.Adds house' (listingKeys item (info.map UserInfo.username))
        item.id := by
  cases info with
  | none =>
      simp only [updateIndices, hactive, hinfo, ne_eq, not_true_eq_false,
        if_false, addSeller]
      refine ⟨_, rfl, ⟨rfl, rfl⟩, rfl, ?_⟩
      intro k i
      cases k <;> simp [Files, listingKeys] <;> grind
  | some info =>
      simp only [updateIndices, hactive, hinfo, ne_eq, not_true_eq_false,
        if_false, addSeller]
      refine ⟨_, rfl, ⟨rfl, rfl⟩, rfl, ?_⟩
      intro k i
      cases k <;> simp [Files, listingKeys] <;> grind

/-- However it ends, `updateIndices` only files the id of its listing.  It
files an active listing under all of its keys when the lookup is answered over
readable balances. -/
theorem updateIndices_cases (house : AuctionHouse) (db : Database)
    (seller : ReadOutcome) (item : AuctionItem) :
    SameListings house (house.updateIndices db seller item).2 ∧
      ∃ keys, house.Adds (house.updateIndices db seller item).2 keys item.id ∧
        (seller = .answered → db.BalancesReadable → item.status = .active →
          (house.updateIndices db seller item).1 = .ok () ∧
            keys = listingKeys item (db.usernameOf item.sellerId)) := by
  by_cases hactive : item.status = .active
  · cases hinfo : db.getUserInfo seller item.sellerId with
    | ok info =>
        obtain ⟨house', heq, hsame, -, hadds⟩ :=
          updateIndices_ok house hactive hinfo
        rw [heq]
        refine ⟨hsame, _, hadds, ?_⟩
        rintro rfl hreadable -
        obtain ⟨info', hinfo', hname⟩ :=
          Database.getUserInfo_of_readable hreadable item.sellerId
        obtain rfl : info = info' :=
          Except.ok.inj (hinfo.symm.trans hinfo')
        exact ⟨rfl, by rw [hname]⟩
    | error e =>
        simp only [updateIndices, hactive, hinfo, ne_eq, not_true_eq_false,
          if_false]
        refine ⟨⟨rfl, rfl⟩, {.type item.item.type}, ?_, ?_⟩
        · intro k i
          cases k with
          | type t => simp [Files]; grind
          | seller n => simp [Files]
          | price p => simp [Files]
          | keyword w => simp [Files]
        · rintro rfl hreadable -
          obtain ⟨info, hinfo', -⟩ :=
            Database.getUserInfo_of_readable hreadable item.sellerId
          rw [hinfo] at hinfo'
          cases hinfo'
  · simp only [updateIndices, ne_eq, hactive, not_false_eq_true, if_true]
    refine ⟨⟨rfl, rfl⟩, ∅, by intro k i; simp, ?_⟩
    intro _ _ h
    exact h.elim

/-! ## Removing a listing -/

/-- The keys `removeFromIndices` withdraws a listing from. -/
def removalKeys (item : AuctionItem) (name : Option Bytes) : Set IndexKey :=
  {k | k ∈ listingKeys item name ∨ ∃ word, k = .keyword word}

/-- A completed `removeFromIndices` withdraws the id from every key the listing
can be filed under. -/
theorem removeFromIndices_ok (house : AuctionHouse) {db : Database}
    {seller : ReadOutcome} {item : AuctionItem} {info : Option UserInfo}
    (hinfo : db.getUserInfo seller item.sellerId = .ok info) :
    ∃ house', house.removeFromIndices db seller item = (.ok (), house') ∧
      SameListings house house' ∧
      house.Withdraws house' (removalKeys item (info.map UserInfo.username))
        item.id := by
  cases info with
  | none =>
      simp only [removeFromIndices, hinfo, removeSeller]
      refine ⟨_, rfl, ⟨rfl, rfl⟩, ?_⟩
      intro k i
      cases k with
      | type t => simp [Files, removalKeys, listingKeys]; grind
      | seller n => simp [Files, removalKeys, listingKeys]
      | price p => simp [Files, removalKeys, listingKeys]; grind
      | keyword w => simp [Files, removalKeys, listingKeys]; grind
  | some info =>
      simp only [removeFromIndices, hinfo, removeSeller]
      refine ⟨_, rfl, ⟨rfl, rfl⟩, ?_⟩
      intro k i
      cases k with
      | type t => simp [Files, removalKeys, listingKeys]; grind
      | seller n => simp [Files, removalKeys, listingKeys]; grind
      | price p => simp [Files, removalKeys, listingKeys]; grind
      | keyword w => simp [Files, removalKeys, listingKeys]; grind

/-- However it ends, `removeFromIndices` only withdraws the id of its
listing. -/
theorem removeFromIndices_cases (house : AuctionHouse) (db : Database)
    (seller : ReadOutcome) (item : AuctionItem) :
    SameListings house (house.removeFromIndices db seller item).2 ∧
      ∃ keys, house.Withdraws (house.removeFromIndices db seller item).2 keys
        item.id := by
  cases hinfo : db.getUserInfo seller item.sellerId with
  | ok info =>
      obtain ⟨house', heq, hsame, hwithdraws⟩ :=
        removeFromIndices_ok house hinfo
      rw [heq]
      exact ⟨hsame, _, hwithdraws⟩
  | error e =>
      simp only [removeFromIndices, hinfo]
      refine ⟨⟨rfl, rfl⟩, {.type item.item.type}, ?_⟩
      intro k i
      cases k with
      | type t => simp [Files]; grind
      | seller n => simp [Files]
      | price p => simp [Files]
      | keyword w => simp [Files]

theorem removeFromIndices_fst {house : AuctionHouse} {db : Database}
    {seller : ReadOutcome} {item : AuctionItem} :
    (house.removeFromIndices db seller item).1 = .ok () ↔
      ∃ info, db.getUserInfo seller item.sellerId = .ok info := by
  cases hinfo : db.getUserInfo seller item.sellerId with
  | ok info => simp [removeFromIndices, hinfo]
  | error e => simp [removeFromIndices, hinfo]

/-! ## Keywords -/

theorem holds_foldl_add (words : List Bytes) (index : Buckets Bytes UInt64)
    (id : UInt64) (w : Bytes) (i : UInt64) :
    (words.foldl (fun index word => index.add word id) index).Holds w i ↔
      index.Holds w i ∨ (w ∈ words ∧ i = id) := by
  induction words generalizing index with
  | nil => simp
  | cons word words ih =>
      rw [List.foldl_cons, ih, Buckets.holds_add, List.mem_cons]
      grind

/-- `indexItemKeywords` files the id under the words of the name. -/
theorem indexItemKeywords_adds (house : AuctionHouse) (id : UInt64)
    (item : Item) :
    SameListings house (house.indexItemKeywords id item) ∧
      house.Adds (house.indexItemKeywords id item)
        {k | ∃ w ∈ keywordsOf item, k = .keyword w} id := by
  refine ⟨⟨rfl, rfl⟩, ?_⟩
  intro k i
  cases k with
  | type t => simp [Files, indexItemKeywords]
  | seller n => simp [Files, indexItemKeywords]
  | price p => simp [Files, indexItemKeywords]
  | keyword w => simp [Files, indexItemKeywords, holds_foldl_add]

/-! ## Empty buckets -/

/-- No index has an empty bucket. -/
structure NoEmptyBucket (house : AuctionHouse) : Prop where
  type : house.itemTypeIndex.NoEmpty
  seller : house.sellerIndex.NoEmpty
  price : house.priceIndex.NoEmpty
  keyword : house.keywordIndex.NoEmpty

theorem noEmptyBucket_initial : initial.NoEmptyBucket :=
  ⟨Buckets.noEmpty_empty, Buckets.noEmpty_empty, Buckets.noEmpty_empty,
    Buckets.noEmpty_empty⟩

theorem NoEmptyBucket.setItem {house : AuctionHouse} (h : house.NoEmptyBucket)
    (id : UInt64) (item : AuctionItem) : (house.setItem id item).NoEmptyBucket :=
  ⟨h.type, h.seller, h.price, h.keyword⟩

theorem NoEmptyBucket.updateIndices {house : AuctionHouse}
    (h : house.NoEmptyBucket) (db : Database) (seller : ReadOutcome)
    (item : AuctionItem) :
    (house.updateIndices db seller item).2.NoEmptyBucket := by
  unfold AuctionHouse.updateIndices
  split
  · exact h
  · have htype := h.type.add item.item.type item.id
    cases db.getUserInfo seller item.sellerId with
    | error e => exact ⟨htype, h.seller, h.price, h.keyword⟩
    | ok info =>
        have hprice := h.price.add item.price item.id
        cases info with
        | none => exact ⟨htype, h.seller, hprice, h.keyword⟩
        | some info =>
            exact ⟨htype, h.seller.add info.username item.id, hprice, h.keyword⟩

theorem NoEmptyBucket.removeFromIndices {house : AuctionHouse}
    (h : house.NoEmptyBucket) (db : Database) (seller : ReadOutcome)
    (item : AuctionItem) :
    (house.removeFromIndices db seller item).2.NoEmptyBucket := by
  unfold AuctionHouse.removeFromIndices
  have htype := h.type.remove item.item.type item.id
  cases db.getUserInfo seller item.sellerId with
  | error e => exact ⟨htype, h.seller, h.price, h.keyword⟩
  | ok info =>
      have hprice := h.price.remove item.price item.id
      have hkeyword := house.keywordIndex.noEmpty_removeEverywhere item.id
      cases info with
      | none => exact ⟨htype, h.seller, hprice, hkeyword⟩
      | some info =>
          exact ⟨htype, h.seller.remove info.username item.id, hprice, hkeyword⟩

theorem NoEmptyBucket.indexItemKeywords {house : AuctionHouse}
    (h : house.NoEmptyBucket) (id : UInt64) (item : Item) :
    (house.indexItemKeywords id item).NoEmptyBucket := by
  have hwords : ∀ (words : List Bytes) (index : Buckets Bytes UInt64),
      index.NoEmpty →
        (words.foldl (fun index word => index.add word id) index).NoEmpty := by
    intro words
    induction words with
    | nil => exact fun _ h => h
    | cons word words ih => exact fun index h => ih _ (h.add word id)
  exact ⟨h.type, h.seller, h.price, hwords _ _ h.keyword⟩

end AuctionHouse
end AuctionServer
