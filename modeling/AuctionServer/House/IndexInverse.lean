import AuctionServer.House.Runs

/-!
# Removal undoes insertion

A listing enters the indices through `updateIndices` and, unless the seller
lookup throws, `indexItemKeywords`.  What the two file is within what
`removeFromIndices` withdraws after the same lookup, so an id that was filed
nowhere is filed nowhere again.  Maps without empty buckets are determined by
what they file, hence the maps themselves are as before.
-/

namespace AuctionServer

/-- What a seller lookup tells the indices. -/
def Database.sellerName (db : Database) (seller : ReadOutcome)
    (userId : UInt32) : Except StoreException (Option Bytes) :=
  match db.getUserInfo seller userId with
  | .error e => .error e
  | .ok info => .ok (info.map UserInfo.username)

namespace AuctionHouse

/-- `updateIndices`, then `indexItemKeywords` unless the lookup threw. -/
def insertIntoIndices (house : AuctionHouse) (db : Database)
    (seller : ReadOutcome) (item : AuctionItem) :
    Except StoreException Unit × AuctionHouse :=
  match house.updateIndices db seller item with
  | (.error e, house) => (.error e, house)
  | (.ok (), house) => (.ok (), house.indexItemKeywords item.id item.item)

/-- `registerItem` files a saved listing this way. -/
theorem registerItem_house {s : Server} {o : Server.RegisterOutcomes}
    {now : Time} {sellerId : UInt32} {item : Item} {price : UInt32}
    {db : Database}
    (hsaved : s.db.saveAuctionItem o.insert (Server.newListing
      s.house.nextAuctionId now sellerId item price) = (true, db)) :
    (s.registerItem o now sellerId item price).2.house =
      (({ s.house with nextAuctionId := s.house.nextAuctionId + 1 }.setItem
        s.house.nextAuctionId (Server.newListing s.house.nextAuctionId now
          sellerId item price)).insertIntoIndices db o.seller
            (Server.newListing s.house.nextAuctionId now sellerId item
              price)).2 := by
  rcases hupdate : ({ s.house with
        nextAuctionId := s.house.nextAuctionId + 1 }.setItem
      s.house.nextAuctionId (Server.newListing s.house.nextAuctionId now sellerId
        item price)).updateIndices db o.seller (Server.newListing
          s.house.nextAuctionId now sellerId item price) with ⟨result, house⟩
  simp only [Server.registerItem, hsaved, insertIntoIndices, hupdate]
  cases result with
  | error e => rfl
  | ok u => rfl

/-- The keys an insertion files a listing under, given what the lookup told. -/
def insertedKeys (item : AuctionItem) :
    Except StoreException (Option Bytes) → Set IndexKey
  | .error _ => {.type item.item.type}
  | .ok name =>
      listingKeys item name ∪
        {k | ∃ w ∈ keywordsOf item.item, k = .keyword w}

/-- The keys a removal withdraws a listing from. -/
def withdrawnKeys (item : AuctionItem) :
    Except StoreException (Option Bytes) → Set IndexKey
  | .error _ => {.type item.item.type}
  | .ok name => removalKeys item name

theorem insertedKeys_subset (item : AuctionItem)
    (name : Except StoreException (Option Bytes)) :
    insertedKeys item name ⊆ withdrawnKeys item name := by
  cases name with
  | error e => exact subset_rfl
  | ok name =>
      rintro k (hk | ⟨w, -, rfl⟩)
      · exact Or.inl hk
      · exact Or.inr ⟨w, rfl⟩

variable {house house' house'' : AuctionHouse} {db db' : Database}
  {seller seller' : ReadOutcome} {item : AuctionItem}

theorem insertIntoIndices_adds (house : AuctionHouse) (db : Database)
    (seller : ReadOutcome) (hactive : item.status = .active) :
    SameListings house (house.insertIntoIndices db seller item).2 ∧
      house.Adds (house.insertIntoIndices db seller item).2
        (insertedKeys item (db.sellerName seller item.sellerId)) item.id := by
  cases hinfo : db.getUserInfo seller item.sellerId with
  | error e =>
      have hname : db.sellerName seller item.sellerId = .error e := by
        simp [Database.sellerName, hinfo]
      simp only [insertIntoIndices, updateIndices, hactive, hinfo, hname, ne_eq,
        not_true_eq_false, if_false]
      refine ⟨⟨rfl, rfl⟩, ?_⟩
      intro k i
      cases k with
      | type t => simp [Files, insertedKeys]; grind
      | seller n => simp [Files, insertedKeys]
      | price p => simp [Files, insertedKeys]
      | keyword w => simp [Files, insertedKeys]
  | ok info =>
      have hname : db.sellerName seller item.sellerId =
          .ok (info.map UserInfo.username) := by
        simp [Database.sellerName, hinfo]
      obtain ⟨filed, hfiled, hsame, -, hadds⟩ :=
        updateIndices_ok house hactive hinfo
      obtain ⟨hsame', hadds'⟩ := filed.indexItemKeywords_adds item.id item.item
      rw [insertIntoIndices, hfiled, hname]
      exact ⟨⟨hsame'.1.trans hsame.1, hsame'.2.trans hsame.2⟩,
        hadds.trans hadds'⟩

theorem removeFromIndices_withdraws (house : AuctionHouse) (db : Database)
    (seller : ReadOutcome) (item : AuctionItem) :
    SameListings house (house.removeFromIndices db seller item).2 ∧
      house.Withdraws (house.removeFromIndices db seller item).2
        (withdrawnKeys item (db.sellerName seller item.sellerId)) item.id := by
  cases hinfo : db.getUserInfo seller item.sellerId with
  | error e =>
      have hname : db.sellerName seller item.sellerId = .error e := by
        simp [Database.sellerName, hinfo]
      simp only [removeFromIndices, hinfo, hname]
      refine ⟨⟨rfl, rfl⟩, ?_⟩
      intro k i
      cases k with
      | type t => simp [Files, withdrawnKeys]; grind
      | seller n => simp [Files, withdrawnKeys]
      | price p => simp [Files, withdrawnKeys]
      | keyword w => simp [Files, withdrawnKeys]
  | ok info =>
      have hname : db.sellerName seller item.sellerId =
          .ok (info.map UserInfo.username) := by
        simp [Database.sellerName, hinfo]
      obtain ⟨removed, hremoved, hsame, hwithdraws⟩ :=
        removeFromIndices_ok house hinfo
      rw [hremoved, hname]
      exact ⟨hsame, hwithdraws⟩

theorem NoEmptyBucket.insertIntoIndices (h : house.NoEmptyBucket)
    (db : Database) (seller : ReadOutcome) (item : AuctionItem) :
    (house.insertIntoIndices db seller item).2.NoEmptyBucket := by
  have hfiled := h.updateIndices db seller item
  unfold AuctionHouse.insertIntoIndices
  split
  · next heq => simpa [heq] using hfiled
  · next heq =>
      rw [heq] at hfiled
      exact hfiled.indexItemKeywords item.id item.item

/-- Two houses with the same listings and no empty bucket are equal when they
file the same ids under the same keys. -/
theorem NoEmptyBucket.ext (h : house.NoEmptyBucket) (h' : house'.NoEmptyBucket)
    (hsame : SameListings house house')
    (hfiles : ∀ k i, house'.Files k i ↔ house.Files k i) : house' = house := by
  have htype := Buckets.ext_holds h'.type h.type fun k i => hfiles (.type k) i
  have hseller :=
    Buckets.ext_holds h'.seller h.seller fun k i => hfiles (.seller k) i
  have hprice :=
    Buckets.ext_holds h'.price h.price fun k i => hfiles (.price k) i
  have hkeyword :=
    Buckets.ext_holds h'.keyword h.keyword fun k i => hfiles (.keyword k) i
  obtain ⟨hitems, hnext⟩ := hsame
  cases house
  cases house'
  simp_all

/-- Filing an id and withdrawing it from at least those keys restores what was
filed, when the id was filed under none of them. -/
theorem Adds.withdraws {keys keys' : Set IndexKey} {id : UInt64}
    (hadds : house.Adds house' keys id)
    (hwithdraws : house'.Withdraws house'' keys' id) (hsub : keys ⊆ keys')
    (hnowhere : ∀ k, ¬ house.Files k id) (k : IndexKey) (i : UInt64) :
    house''.Files k i ↔ house.Files k i := by
  rw [hwithdraws k i, hadds k i]
  constructor
  · rintro ⟨hold | ⟨hk, rfl⟩, hkept⟩
    · exact hold
    · exact (hkept ⟨hsub hk, rfl⟩).elim
  · intro hold
    refine ⟨Or.inl hold, ?_⟩
    rintro ⟨-, rfl⟩
    exact hnowhere k hold

/-- Filing one id does not depend on whether another was filed before. -/
theorem Adds.comm {filed : AuctionHouse} {keys keys' : Set IndexKey}
    {id id' : UInt64} (hadds : house.Adds house' keys id)
    (hadds' : house'.Adds house'' keys' id')
    (hfiled : house.Adds filed keys' id') :
    filed.Adds house'' keys id := by
  intro k i
  rw [hadds' k i, hadds k i, hfiled k i]
  tauto

/-- An id filed nowhere is still filed nowhere when another one was added. -/
theorem Adds.not_files {keys : Set IndexKey} {id id' : UInt64}
    (hadds : house.Adds house' keys id') (hne : id' ≠ id)
    (hnowhere : ∀ k, ¬ house.Files k id) (k : IndexKey) :
    ¬ house'.Files k id := by
  rw [hadds k id]
  rintro (hold | ⟨-, rfl⟩)
  · exact hnowhere k hold
  · exact hne rfl

/-- What is left when a listing is removed that was added to `house`. -/
theorem removeFromIndices_of_adds (hempty : house.NoEmptyBucket)
    (hnowhere : ∀ k, ¬ house.Files k item.id)
    (hname : db'.sellerName seller' item.sellerId =
      db.sellerName seller item.sellerId)
    (hempty' : house'.NoEmptyBucket) (hsame : SameListings house house')
    (hadds : house.Adds house'
      (insertedKeys item (db.sellerName seller item.sellerId)) item.id) :
    (house'.removeFromIndices db' seller' item).2 = house := by
  obtain ⟨hsame', hwithdraws⟩ :=
    house'.removeFromIndices_withdraws db' seller' item
  rw [hname] at hwithdraws
  refine hempty.ext (hempty'.removeFromIndices db' seller' item)
    ⟨hsame'.1.trans hsame.1, hsame'.2.trans hsame.2⟩ ?_
  exact hadds.withdraws hwithdraws (insertedKeys_subset _ _) hnowhere

/-- Removing a listing from the indices takes back what its insertion did,
also when another listing was inserted before or after it. -/
theorem removeFromIndices_insertIntoIndices (house : AuctionHouse)
    (db db' : Database) (seller seller' : ReadOutcome) (item : AuctionItem)
    (hempty : house.NoEmptyBucket) (hactive : item.status = .active)
    (hnowhere : ∀ k, ¬ house.Files k item.id)
    (hname : db'.sellerName seller' item.sellerId =
      db.sellerName seller item.sellerId) :
    ((house.insertIntoIndices db seller item).2.removeFromIndices
        db' seller' item).2 = house ∧
      ∀ (dbOther : Database) (sellerOther : ReadOutcome) (other : AuctionItem),
        other.status = .active → other.id ≠ item.id →
          (((house.insertIntoIndices db seller item).2.insertIntoIndices
              dbOther sellerOther other).2.removeFromIndices
                db' seller' item).2 =
              (house.insertIntoIndices dbOther sellerOther other).2 ∧
            (((house.insertIntoIndices dbOther sellerOther
                other).2.insertIntoIndices db seller item).2.removeFromIndices
                  db' seller' item).2 =
              (house.insertIntoIndices dbOther sellerOther other).2 := by
  have hinserted := hempty.insertIntoIndices db seller item
  obtain ⟨hsame, hadds⟩ := house.insertIntoIndices_adds db seller hactive
  refine ⟨removeFromIndices_of_adds hempty hnowhere hname hinserted hsame
    hadds, ?_⟩
  intro dbOther sellerOther other hother hne
  have hotherEmpty := hempty.insertIntoIndices dbOther sellerOther other
  obtain ⟨hotherSame, hotherAdds⟩ :=
    house.insertIntoIndices_adds dbOther sellerOther hother
  have hotherNowhere := hotherAdds.not_files hne hnowhere
  constructor
  · -- The listing was inserted first.
    obtain ⟨hbothSame, hbothAdds⟩ := (house.insertIntoIndices db seller
      item).2.insertIntoIndices_adds dbOther sellerOther hother
    refine removeFromIndices_of_adds hotherEmpty hotherNowhere hname
      (hinserted.insertIntoIndices _ _ _) ?_
      (hadds.comm hbothAdds hotherAdds)
    exact ⟨(hbothSame.1.trans hsame.1).trans hotherSame.1.symm,
      (hbothSame.2.trans hsame.2).trans hotherSame.2.symm⟩
  · -- The listing was inserted last.
    obtain ⟨hbothSame, hbothAdds⟩ := (house.insertIntoIndices dbOther
      sellerOther other).2.insertIntoIndices_adds db seller hactive
    exact removeFromIndices_of_adds hotherEmpty hotherNowhere hname
      (hotherEmpty.insertIntoIndices _ _ _) hbothSame hbothAdds

/-- An open listing of the user with id 7. -/
def listingNamed (id : UInt64) (name : String) : AuctionItem where
  id := id
  item := { (default : Item) with name := literal name, type := 2 }
  sellerId := 7
  buyerId := 0
  price := 40
  status := .active
  registrationTime := 1000
  expirationTime := 605800
  soldTime := 0

/-- The house already lists a sword, and repeated words and a shared word are
taken back. -/
theorem removal_undoes_insertion_of_swords :
    (((initial.insertIntoIndices Server.market .answered
        (listingNamed 1 "old sword")).2.insertIntoIndices Server.market .answered
          (listingNamed 2 "sword of the sword")).2.removeFromIndices
            Server.market .answered (listingNamed 2 "sword of the sword")).2 =
      (initial.insertIntoIndices Server.market .answered
        (listingNamed 1 "old sword")).2 :=
  (removeFromIndices_insertIntoIndices
    (initial.insertIntoIndices Server.market .answered
      (listingNamed 1 "old sword")).2
    Server.market Server.market .answered .answered
    (listingNamed 2 "sword of the sword")
    (noEmptyBucket_initial.insertIntoIndices Server.market .answered _) rfl
    ((initial.insertIntoIndices_adds Server.market .answered rfl).2.not_files
      (by decide) fun k => not_files_initial k _) rfl).1

end AuctionHouse
end AuctionServer
