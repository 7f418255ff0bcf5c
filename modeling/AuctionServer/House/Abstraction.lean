import AuctionServer.House.ExactSweep
import AuctionServer.House.Paging
import AuctionServer.House.Sales
import AuctionServer.House.Rebuild
import AuctionServer.Support.Marketplace

/-!
# The house as a marketplace

A server is seen as a marketplace: its listings are the offers, and the stored
balances are what the users have.  A search asks for the open offers that its
criteria describe.  Indices, caches, documents and the widths of the numbers
do not show.
-/

namespace AuctionServer

/-- The offers and balances of an auction house. -/
abbrev House.Market := Marketplace.Market UInt64 UInt32 Item Time

/-- The terms of a listing.  The owner of the item is kept apart, since a sale
changes it. -/
def termsOf (listing : AuctionItem) : Marketplace.Terms UInt32 Item Time where
  seller := listing.sellerId
  goods := { listing.item with ownerId := 0 }
  price := listing.price.toNat
  listed := listing.registrationTime
  deadline := listing.expirationTime

/-- How a listing stands. -/
def standingOf (listing : AuctionItem) : Marketplace.Standing UInt32 Time :=
  match listing.status with
  | .active => .opened
  | .sold => .sold listing.buyerId listing.soldTime
  | .expired => .expired
  | .cancelled => .cancelled

/-- The offer a listing makes. -/
def offerOf (listing : AuctionItem) : Marketplace.Offer UInt32 Item Time where
  terms := termsOf listing
  owner := listing.item.ownerId
  standing := standingOf listing

/-- What a user has, if there is one. -/
def Database.wealth (db : Database) (u : UInt32) : Option ℕ :=
  (db.findUser u).map fun doc => (worth doc).toNat

/-- The marketplace a database describes. -/
def Database.marketplace (db : Database) : House.Market where
  offers := fun id => (db.findAuction id).map fun doc => offerOf (bsonToItem doc)
  balance := db.wealth

/-- The marketplace a server is. -/
def Server.marketplace (s : Server) : House.Market where
  offers := fun id => (s.house.auctionItems[id]?).map offerOf
  balance := s.db.wealth

/-- The terms meet the criteria, where the sellers have the names in `db`. -/
structure Wanted (db : Database) (criteria : SearchCriteria)
    (terms : Marketplace.Terms UInt32 Item Time) : Prop where
  atLeast : criteria.minPrice.toNat ≤ terms.price
  atMost : criteria.maxPrice ≠ 0 → terms.price ≤ criteria.maxPrice.toNat
  type : criteria.itemType ≠ 0 → terms.goods.type = criteria.itemType
  seller : criteria.sellerName ≠ [] →
    db.usernameOf terms.seller = some criteria.sellerName
  name : criteria.keyword ≠ [] →
    lowercase criteria.keyword <:+: lowercase terms.goods.name

/-- One offer may come before another in the requested order. -/
def MayPrecede (criteria : SearchCriteria)
    (x y : UInt64 × Marketplace.Terms UInt32 Item Time) : Prop :=
  if criteria.sortBy = literal "price" then
    if criteria.sortOrder = literal "desc" then y.2.price ≤ x.2.price
    else x.2.price ≤ y.2.price
  else if criteria.sortBy = literal "time" then
    if criteria.sortOrder = literal "desc" then y.2.listed ≤ x.2.listed
    else x.2.listed ≤ y.2.listed
  else if criteria.sortBy = literal "name" then
    if criteria.sortOrder = literal "desc" then y.2.goods.name ≤ x.2.goods.name
    else x.2.goods.name ≤ y.2.goods.name
  else x.1 < y.1

/-- The question a search asks.  The start of the page is a product of two
32-bit numbers, and without a page size there is one page.  A keyword that is
indexed may miss offers, so only a search without one is exhaustive. -/
def questionOf (db : Database) (criteria : SearchCriteria) :
    Marketplace.Query UInt64 UInt32 Item Time where
  wanted := Wanted db criteria
  inOrder := MayPrecede criteria
  exhaustive := criteria.keyword = []
  start :=
    if criteria.itemsPerPage = 0 then 0
    else pageStart criteria.page criteria.itemsPerPage % 2 ^ 32
  count :=
    if criteria.itemsPerPage = 0 then none else some criteria.itemsPerPage.toNat

/-- A listing as it is shown. -/
def shownTerms (listing : AuctionItem) :
    UInt64 × Marketplace.Terms UInt32 Item Time :=
  (listing.id, termsOf listing)

/-! ## Standings -/

theorem standingOf_eq_opened {listing : AuctionItem} :
    standingOf listing = .opened ↔ listing.status = .active := by
  cases h : listing.status <;> simp [standingOf, h]

namespace Server

variable {s : Server} {id : UInt64}

/-- The open offers are the active listings. -/
theorem marketplace_open {terms : Marketplace.Terms UInt32 Item Time} :
    s.marketplace.Open id terms ↔
      ∃ listing, s.house.auctionItems[id]? = some listing ∧
        listing.status = .active ∧ termsOf listing = terms := by
  constructor
  · rintro ⟨offer, hoffer, hopen, rfl⟩
    obtain ⟨listing, hlisting, rfl⟩ := Option.map_eq_some_iff.mp hoffer
    exact ⟨listing, hlisting, standingOf_eq_opened.mp hopen, rfl⟩
  · rintro ⟨listing, hlisting, hactive, rfl⟩
    exact ⟨offerOf listing, by simp [marketplace, hlisting],
      standingOf_eq_opened.mpr hactive, rfl⟩

/-- Replacing a listing replaces the offer. -/
theorem marketplace_put {s' : Server} {listing : AuctionItem}
    (hitems : s'.house.auctionItems = s.house.auctionItems.insert id listing) :
    s'.marketplace.offers =
      (Function.update s.marketplace.offers id (some (offerOf listing))) := by
  funext i
  rcases eq_or_ne i id with rfl | hne
  · simp [marketplace, hitems]
  · rw [Function.update_of_ne hne]
    simp [marketplace, hitems, Std.ExtTreeMap.getElem?_insert, hne.symm]

/-! ## Documents and memory -/

/-- While the two copies agree, they describe the same marketplace. -/
theorem Agreeing.marketplace_eq (h : s.Agreeing) :
    s.db.marketplace = s.marketplace := by
  apply Marketplace.Market.ext
  · funext i
    have hsame : (s.db.findAuction i).map bsonToItem =
        s.house.auctionItems[i]? := by
      apply Option.ext
      intro item
      rw [Option.map_eq_some_iff,
        show s.house.auctionItems[i]? = some item ↔ _ from h.agrees i item]
      constructor
      · rintro ⟨doc, hdoc, rfl⟩
        obtain ⟨hmem, hkey⟩ := h.orderly.findAuction_eq_some_iff.mp hdoc
        exact ⟨doc, hmem, rfl, hkey⟩
      · rintro ⟨doc, hdoc, rfl, hkey⟩
        exact ⟨doc, h.orderly.findAuction_eq_some_iff.mpr ⟨hdoc, hkey⟩, rfl⟩
    change (s.db.findAuction i).map (fun doc => offerOf (bsonToItem doc)) =
      (s.house.auctionItems[i]?).map offerOf
    rw [← hsame, Option.map_map]
    rfl
  · rfl

end Server

/-! ## Wealth -/

namespace Database

variable {db db' : Database} {u : UInt32}

theorem wealth_of_users (h : db'.users = db.users) : db'.wealth = db.wealth := by
  funext u
  simp only [wealth, findUser, h]

theorem wealth_eq_some_iff (hsolvent : db.Solvent) {n : ℕ} :
    db.wealth u = some n ↔
      ∃ doc, db.findUser u = some doc ∧ worth doc = n := by
  rw [wealth, Option.map_eq_some_iff]
  refine exists_congr fun doc => and_congr_right fun hdoc => ?_
  obtain ⟨b, hb, hnonneg⟩ := hsolvent.balance hdoc
  simp only [worth, hb, Option.elim_some]
  omega

/-- Who has something is a matter of the ids, and how much of the balances. -/
theorem wealth_eq_of_balanceOf :
    db.wealth u =
      if u.toInt32 ∈ db.users.map UserDocument.id then
        some (db.balanceOf u).toNat
      else none := by
  cases hfound : db.findUser u with
  | none =>
      have hnot : u.toInt32 ∉ db.users.map UserDocument.id := by
        intro hmem
        obtain ⟨doc, hdoc, hid⟩ := List.mem_map.mp hmem
        have hnone := List.find?_eq_none.mp hfound doc hdoc
        simp [hid] at hnone
      simp [wealth, hfound, hnot]
  | some doc =>
      have hmem : u.toInt32 ∈ db.users.map UserDocument.id := by
        rw [← Collection.key_of_findOne hfound]
        exact List.mem_map_of_mem (Collection.mem_of_findOne hfound)
      simp [wealth, hfound, hmem, balanceOf]

end Database

end AuctionServer
