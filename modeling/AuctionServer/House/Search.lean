import AuctionServer.Store.SearchCache
import AuctionServer.House.Criteria
import AuctionServer.House.Indices
import AuctionServer.Support.Sorting

/-!
# Searching

`searchItems` and what it calls.  The candidate set comes from one of the
indices or from a scan, the filter looks every candidate up by subscript, the
remaining listings are sorted and cut to the requested page, and the page of a
popular search is cached.

`std::sort` is any algorithm that permutes a list into the order of a strict
weak comparison; nothing is assumed about the order of equal elements.
-/

namespace AuctionServer

/-- An implementation of `std::sort` on listings. -/
class StdSort where
  sort : (AuctionItem → AuctionItem → Bool) → List AuctionItem →
    List AuctionItem
  perm : ∀ lt items, StrictWeak lt → (sort lt items).Perm items
  ordered : ∀ lt items, StrictWeak lt →
    (sort lt items).Pairwise fun a b => lt b a = false

/-- Insertion sort is one. -/
@[reducible] def StdSort.insertion : StdSort where
  sort := StrictWeak.insertionSort
  perm := fun lt items _ => StrictWeak.insertionSort_perm lt items
  ordered := fun _ items h => StrictWeak.insertionSort_ordered h items

/-- The bound checks and comparisons of `matchesCriteria` that need no lookup. -/
def withinBounds (item : AuctionItem) (criteria : SearchCriteria) : Bool :=
  item.status == .active &&
    !(0 < criteria.minPrice && item.price < criteria.minPrice) &&
    !(0 < criteria.maxPrice && criteria.maxPrice < item.price) &&
    !(0 < criteria.itemType && item.item.type != criteria.itemType)

/-- The keyword part of `matchesCriteria`. -/
def nameMatches (item : AuctionItem) (criteria : SearchCriteria) : Bool :=
  criteria.keyword.isEmpty ||
    containsText (lowercase item.item.name) (lowercase criteria.keyword)

/-- `matchesCriteria`. -/
def matchesCriteria (db : Database) (seller : ReadOutcome)
    (item : AuctionItem) (criteria : SearchCriteria) :
    Except StoreException Bool :=
  if !withinBounds item criteria then .ok false
  else if criteria.sellerName.isEmpty then .ok (nameMatches item criteria)
  else
    match db.getUserInfo seller item.sellerId with
    | .error e => .error e
    | .ok none => .ok false
    | .ok (some info) =>
        if info.username ≠ criteria.sellerName then .ok false
        else .ok (nameMatches item criteria)

/-- `sortResults`. -/
def sortResults [StdSort] (results : List AuctionItem)
    (sortBy sortOrder : Bytes) : List AuctionItem :=
  let ascending := sortOrder != literal "desc"
  if sortBy = literal "price" then
    if ascending then StdSort.sort (fun a b => a.price < b.price) results
    else StdSort.sort (fun a b => b.price < a.price) results
  else if sortBy = literal "time" then
    if ascending then
      StdSort.sort (fun a b => a.registrationTime < b.registrationTime) results
    else
      StdSort.sort (fun a b => b.registrationTime < a.registrationTime) results
  else if sortBy = literal "name" then
    if ascending then
      StdSort.sort (fun a b => a.item.name < b.item.name) results
    else StdSort.sort (fun a b => b.item.name < a.item.name) results
  else results

/-- `applyPagination`.  The start index is a product of two `uint32_t` values,
computed before it is widened. -/
def applyPagination (results : List AuctionItem) (page itemsPerPage : UInt32) :
    List AuctionItem :=
  if results.isEmpty || itemsPerPage == 0 then results
  else
    let page := if page < 1 then 1 else page
    let startIndex := ((page - 1) * itemsPerPage).toNat
    if results.length ≤ startIndex then []
    else
      let endIndex := min (startIndex + itemsPerPage.toNat) results.length
      (results.take endIndex).drop startIndex

namespace AuctionHouse

/-- The candidates a search starts from; `none` when the price scan runs past
the end of the index. -/
def candidates (house : AuctionHouse) (criteria : SearchCriteria) :
    Option IdSet :=
  if !criteria.keyword.isEmpty &&
      house.keywordIndex.contains criteria.keyword then
    some (house.keywordIndex.bucket criteria.keyword)
  else if criteria.itemType != 0 &&
      house.itemTypeIndex.contains criteria.itemType then
    some (house.itemTypeIndex.bucket criteria.itemType)
  else if !criteria.sellerName.isEmpty then
    some (house.sellerIndex.bucket criteria.sellerName)
  else if 0 < criteria.maxPrice then
    house.priceIndex.collectRange criteria.minPrice criteria.maxPrice
  else
    some (house.auctionItems.toList.foldl
      (fun ids e => if e.2.status = .active then ids.insert e.1 else ids) ∅)

/-- `auction_items_[id]`: an absent id is inserted with a value-initialized
listing. -/
def subscript (house : AuctionHouse) (id : UInt64) :
    AuctionItem × AuctionHouse :=
  match house.auctionItems[id]? with
  | some item => (item, house)
  | none => (default, house.setItem id default)

/-- The filter loop over the candidates. -/
def filterMatches (db : Database) (sellers : UInt64 → ReadOutcome)
    (criteria : SearchCriteria) :
    List UInt64 → AuctionHouse →
      Except StoreException (List AuctionItem) × AuctionHouse
  | [], house => (.ok [], house)
  | id :: ids, house =>
      let (item, house) := house.subscript id
      match matchesCriteria db (sellers id) item criteria with
      | .error e => (.error e, house)
      | .ok matched =>
          match filterMatches db sellers criteria ids house with
          | (.error e, house) => (.error e, house)
          | (.ok results, house) =>
              (.ok (if matched then item :: results else results), house)

end AuctionHouse

/-- The store calls of one search: the cache read, what the records read from
it hold in the fields nobody sets, one seller lookup per candidate, and the
cache write. -/
structure SearchOutcomes where
  get : ReadOutcome
  unset : ℕ → UnsetFields
  sellers : UInt64 → ReadOutcome
  setex : WriteOutcome
deriving Inhabited

namespace Server

/-- The selected and sorted listings, before pagination. -/
def selectItems [StdSort] (s : Server) (sellers : UInt64 → ReadOutcome)
    (criteria : SearchCriteria) :
    Option (Except StoreException (List AuctionItem) × AuctionHouse) :=
  match s.house.candidates criteria with
  | none => none
  | some ids =>
      match AuctionHouse.filterMatches s.db sellers criteria ids.toList
          s.house with
      | (.error e, house) => some (.error e, house)
      | (.ok results, house) =>
          some (.ok (sortResults results criteria.sortBy criteria.sortOrder),
            house)

/-- A search that does not look at the cache. -/
def searchUncached [StdSort] (s : Server) (sellers : UInt64 → ReadOutcome)
    (criteria : SearchCriteria) :
    Option (Except StoreException (List AuctionItem) × AuctionHouse) :=
  match s.selectItems sellers criteria with
  | none => none
  | some (.error e, house) => some (.error e, house)
  | some (.ok results, house) =>
      some (.ok (applyPagination results criteria.page criteria.itemsPerPage),
        house)

/-- What a search finds in the cache. -/
def cachedResults (s : Server) (o : SearchOutcomes)
    (criteria : SearchCriteria) : Option (List AuctionItem) :=
  if criteria.isPopularSearch then
    s.db.getCachedSearch o.get o.unset criteria.hash
  else none

/-- `searchItems`; `none` when the price scan is undefined. -/
def searchItems [StdSort] (s : Server) (o : SearchOutcomes)
    (criteria : SearchCriteria) :
    Option (Except StoreException (List AuctionItem) × Server) :=
  match s.cachedResults o criteria with
  | some results => some (.ok results, s)
  | none =>
      match s.searchUncached o.sellers criteria with
      | none => none
      | some (.error e, house) => some (.error e, { s with house })
      | some (.ok results, house) =>
          let db :=
            if criteria.isPopularSearch then
              s.db.cacheSearchResults o.setex criteria.hash results
            else s.db
          some (.ok results, { house, db })

end Server

end AuctionServer
