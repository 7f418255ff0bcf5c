import AuctionServer.House.Server
import AuctionServer.Store.ConcurrentBalances
import AuctionServer.Support.Guarded

/-!
# The calls of an auction house, one store call at a time

Every operation holds the mutex of the house from its first line to its last.
Below, a step of an operation makes one call to a store and works in memory up
to the next one, or does the work between two store calls.  Redis drops
expired entries whenever it likes, so also between two such steps, and the
process can die there.
-/

namespace AuctionServer

/-- A call of `AuctionHouse`. -/
inductive Operation where
  | registerItem (sellerId : UInt32) (item : Item) (price : UInt32)
  | searchItems (criteria : SearchCriteria)
  | purchaseItem (auctionId : UInt64) (buyerId : UInt32)
  | cancelListing (auctionId : UInt64) (sellerId : UInt32)
  | processExpiredItems

/-- What a step meets: the clock, the outcome of its store call, what the
records read from the cache hold where nobody sets them, and the order in
which the hash map yields its elements. -/
structure Encounter where
  now : Time
  read : ReadOutcome
  write : WriteOutcome
  unset : ℕ → UnsetFields
  order : List UInt64
deriving Inhabited

/-- Where `updateAuctionItem` is: before its `update_one`, or before the
deletion of the cached listing. -/
inductive ItemWrite where
  | updating (item : AuctionItem)
  | deleting (item : AuctionItem) (modified : Bool)

/-- Where a call is: what it does next, with what it needs for it. -/
inductive CallProgress where
  /-- `registerItem`, before the insert. -/
  | saving (sellerId : UInt32) (item : Item) (price : UInt32)
  /-- `registerItem`, before the listing is filed. -/
  | filing (item : Item) (listing : AuctionItem)
  /-- `searchItems`, before it asks the cache. -/
  | looking (criteria : SearchCriteria)
  /-- `searchItems`, in the filter loop, with the matches so far. -/
  | matching (criteria : SearchCriteria) (ids : List UInt64)
      (results : List AuctionItem)
  /-- `purchaseItem`, before the buyer is looked up. -/
  | checking (auctionId : UInt64) (buyerId : UInt32)
  /-- `purchaseItem`, while the seller is paid. -/
  | crediting (auctionId : UInt64) (buyerId : UInt32) (listing : AuctionItem)
      (m : BalanceProgress)
  /-- `purchaseItem`, while the buyer is charged. -/
  | debiting (auctionId : UInt64) (buyerId : UInt32) (listing : AuctionItem)
      (m : BalanceProgress)
  /-- `purchaseItem`, while the sold listing is written. -/
  | selling (sold : AuctionItem) (m : ItemWrite)
  /-- `purchaseItem`, before the sold listing leaves the indices. -/
  | handingOver (sold : AuctionItem)
  /-- `cancelListing`, at its start. -/
  | withdrawing (auctionId : UInt64) (sellerId : UInt32)
  /-- `cancelListing`, while the cancelled listing is written. -/
  | cancelling (cancelled : AuctionItem) (m : ItemWrite)
  /-- `cancelListing`, before the cancelled listing leaves the indices. -/
  | removing (cancelled : AuctionItem)
  /-- `processExpiredItems`, at its start. -/
  | sweeping
  /-- `processExpiredItems`, in its first loop. -/
  | expiring (now : Time) (ids expiredIds : List UInt64)
  /-- `processExpiredItems`, while an expired listing is written. -/
  | storing (now : Time) (id : UInt64) (ids expiredIds : List UInt64)
      (m : ItemWrite)
  /-- `processExpiredItems`, in its second loop. -/
  | clearing (expiredIds : List UInt64)

/-- `updateAuctionItem`, one store call at a time. -/
def Database.updateAuctionItemStep (db : Database) :
    ItemWrite → WriteOutcome → Database × (ItemWrite ⊕ Except StoreException Bool)
  | .updating item, o =>
      let written := o.store db (db.setAuction item)
      match o with
      | .raised _ => (written, .inr (.ok false))
      | _ =>
          let modified := o.reports (db.modifiesAuction item)
          if written.redisAvailable then (written, .inl (.deleting item modified))
          else (written, .inr (.ok modified))
  | .deleting item modified, o =>
      match db.redisDel o (getItemCacheKey item.id) with
      | (.error e, cleaned) => (cleaned, .inr (.error e))
      | (.ok (), cleaned) => (cleaned, .inr (.ok modified))

namespace Server

/-- The end of `registerItem`, after the insert. -/
def fileListing (s : Server) (seller : ReadOutcome) (item : Item)
    (listing : AuctionItem) : Except StoreException UInt64 × Server :=
  match (s.house.setItem listing.id listing).updateIndices s.db seller listing with
  | (.error e, house) => (.error e, { s with house })
  | (.ok (), house) =>
      (.ok listing.id, { s with house := house.indexItemKeywords listing.id item })

/-- The end of `searchItems`, after the filter loop. -/
def showResults [StdSort] (s : Server) (setex : WriteOutcome)
    (criteria : SearchCriteria) (results : List AuctionItem) :
    List AuctionItem × Server :=
  let sorted := sortResults results criteria.sortBy criteria.sortOrder
  let page := applyPagination sorted criteria.page criteria.itemsPerPage
  (page,
    if criteria.isPopularSearch then
      { s with db := s.db.cacheSearchResults setex criteria.hash page }
    else s)

/-- The end of `purchaseItem`, after the sold listing is written. -/
def finishSale (s : Server) (seller : ReadOutcome) (sold : AuctionItem) :
    Bool × Server :=
  match s.house.removeFromIndices s.db seller sold with
  | (.error _, house) => (false, { s with house })
  | (.ok (), house) => (true, { s with house })

/-- The end of `cancelListing`, after the cancelled listing is written. -/
def finishCancel (s : Server) (seller : ReadOutcome) (cancelled : AuctionItem) :
    Except StoreException Bool × Server :=
  match s.house.removeFromIndices s.db seller cancelled with
  | (.error e, house) => (.error e, { s with house })
  | (.ok (), house) => (.ok true, { s with house })

/-- One step of a call; `none` where a search leaves the price index, and
where the order does not enumerate the listings. -/
def advance [StdSort] (s : Server) :
    CallProgress → Encounter → Option (Server × (CallProgress ⊕ Reply))
  | .saving sellerId item price, o =>
      let id := s.house.nextAuctionId
      let listing := newListing id o.now sellerId item price
      let counted := { s.house with nextAuctionId := id + 1 }
      match s.db.saveAuctionItem o.write listing with
      | (false, db) => some ({ house := counted, db }, .inr (.registered (.ok 0)))
      | (true, db) => some ({ house := counted, db }, .inl (.filing item listing))
  | .filing item listing, o =>
      let (result, s) := s.fileListing o.read item listing
      some (s, .inr (.registered result))
  | .looking criteria, o =>
      let cached :=
        if criteria.isPopularSearch then
          s.db.getCachedSearch o.read o.unset criteria.hash
        else none
      match cached with
      | some results => some (s, .inr (.found (.ok results)))
      | none =>
          (s.house.candidates criteria).map fun ids =>
            (s, .inl (.matching criteria ids.toList []))
  | .matching criteria [] results, o =>
      let (page, s) := s.showResults o.write criteria results
      some (s, .inr (.found (.ok page)))
  | .matching criteria (id :: ids) results, o =>
      let (item, house) := s.house.subscript id
      match matchesCriteria s.db o.read item criteria with
      | .error e => some ({ s with house }, .inr (.found (.error e)))
      | .ok matched =>
          some ({ s with house },
            .inl (.matching criteria ids
              (if matched then results ++ [item] else results)))
  | .checking auctionId buyerId, o =>
      match s.house.auctionItems[auctionId]? with
      | none => some (s, .inr (.purchased false))
      | some listing =>
          if listing.status ≠ .active then some (s, .inr (.purchased false))
          else if listing.sellerId = buyerId then
            some (s, .inr (.purchased false))
          else
            match s.db.getUserInfo o.read buyerId with
            | .error _ => some (s, .inr (.purchased false))
            | .ok none => some (s, .inr (.purchased false))
            | .ok (some buyer) =>
                if buyer.balance < listing.price then
                  some (s, .inr (.purchased false))
                else
                  some (s, .inl (.crediting auctionId buyerId listing
                    (.finding ⟨listing.sellerId, listing.price.toInt32⟩)))
  | .crediting auctionId buyerId listing m, o =>
      match s.db.updateUserBalanceStep m ⟨o.read, o.write⟩ with
      | (db, .inl m) =>
          some ({ s with db }, .inl (.crediting auctionId buyerId listing m))
      | (db, .inr (_, false)) => some ({ s with db }, .inr (.purchased false))
      | (db, .inr (_, true)) =>
          some ({ s with db }, .inl (.debiting auctionId buyerId listing
            (.finding ⟨buyerId, -listing.price.toInt32⟩)))
  | .debiting auctionId buyerId listing m, o =>
      match s.db.updateUserBalanceStep m ⟨o.read, o.write⟩ with
      | (db, .inl m) =>
          some ({ s with db }, .inl (.debiting auctionId buyerId listing m))
      | (db, .inr (_, false)) => some ({ s with db }, .inr (.purchased false))
      | (db, .inr (_, true)) =>
          let sold := soldListing listing buyerId o.now
          some ({ house := s.house.setItem auctionId sold, db },
            .inl (.selling sold (.updating sold)))
  | .selling sold m, o =>
      match s.db.updateAuctionItemStep m o.write with
      | (db, .inl m) => some ({ s with db }, .inl (.selling sold m))
      | (db, .inr (.ok true)) => some ({ s with db }, .inl (.handingOver sold))
      | (db, .inr _) => some ({ s with db }, .inr (.purchased false))
  | .handingOver sold, o =>
      let (result, s) := s.finishSale o.read sold
      some (s, .inr (.purchased result))
  | .withdrawing auctionId sellerId, _ =>
      match s.house.auctionItems[auctionId]? with
      | none => some (s, .inr (.cancelled (.ok false)))
      | some listing =>
          if listing.status ≠ .active then
            some (s, .inr (.cancelled (.ok false)))
          else if listing.sellerId ≠ sellerId then
            some (s, .inr (.cancelled (.ok false)))
          else
            let cancelled := { listing with status := .cancelled }
            some ({ s with house := s.house.setItem auctionId cancelled },
              .inl (.cancelling cancelled (.updating cancelled)))
  | .cancelling cancelled m, o =>
      match s.db.updateAuctionItemStep m o.write with
      | (db, .inl m) => some ({ s with db }, .inl (.cancelling cancelled m))
      | (db, .inr (.ok true)) => some ({ s with db }, .inl (.removing cancelled))
      | (db, .inr result) => some ({ s with db }, .inr (.cancelled result))
  | .removing cancelled, o =>
      let (result, s) := s.finishCancel o.read cancelled
      some (s, .inr (.cancelled result))
  | .sweeping, o =>
      if o.order.isPerm s.house.auctionItems.keys then
        some (s, .inl (.expiring o.now o.order []))
      else none
  | .expiring _ [] expiredIds, _ => some (s, .inl (.clearing expiredIds))
  | .expiring now (id :: ids) expiredIds, _ =>
      match s.house.auctionItems[id]? with
      | none => some (s, .inl (.expiring now ids expiredIds))
      | some item =>
          if isExpired now item then
            let expired := { item with status := .expired }
            some ({ s with house := s.house.setItem id expired },
              .inl (.storing now id ids expiredIds (.updating expired)))
          else some (s, .inl (.expiring now ids expiredIds))
  | .storing now id ids expiredIds m, o =>
      match s.db.updateAuctionItemStep m o.write with
      | (db, .inl m) => some ({ s with db }, .inl (.storing now id ids expiredIds m))
      | (db, .inr (.error e)) => some ({ s with db }, .inr (.swept (.error e)))
      | (db, .inr (.ok false)) =>
          some ({ s with db }, .inl (.expiring now ids expiredIds))
      | (db, .inr (.ok true)) =>
          some ({ s with db }, .inl (.expiring now ids (expiredIds ++ [id])))
  | .clearing [], _ => some (s, .inr (.swept (.ok ())))
  | .clearing (id :: ids), o =>
      match s.house.auctionItems[id]? with
      | none => some (s, .inl (.clearing ids))
      | some item =>
          match s.house.removeFromIndices s.db o.read item with
          | (.error e, house) => some ({ s with house }, .inr (.swept (.error e)))
          | (.ok (), house) => some ({ s with house }, .inl (.clearing ids))

end Server

/-- Where a call begins. -/
def Operation.start : Operation → CallProgress
  | .registerItem sellerId item price => .saving sellerId item price
  | .searchItems criteria => .looking criteria
  | .purchaseItem auctionId buyerId => .checking auctionId buyerId
  | .cancelListing auctionId sellerId => .withdrawing auctionId sellerId
  | .processExpiredItems => .sweeping

/-- What a start of the process meets: the documents in the order the start-up
query delivers them, where it fails, and the seller lookups. -/
structure Startup where
  order : List AuctionDocument
  failsAfter : Option ℕ
  sellers : ℕ → ReadOutcome

/-- The calls behind the mutex.  The environment drops cache entries; a crash
loses the house, and a new process starts over the database. -/
def houseCalls [StdSort] :
    Guarded Server Operation Encounter CallProgress Reply String Startup where
  start := Operation.start
  step := Server.advance
  disturb key s := s.expireKey key
  crash x s := s.restart x.order x.failsAfter x.sellers

/-- The operation of a call, without what the environment decides. -/
def Call.operation : Call → Option Operation
  | .registerItem _ _ sellerId item price => some (.registerItem sellerId item price)
  | .searchItems _ criteria => some (.searchItems criteria)
  | .purchaseItem _ _ auctionId buyerId => some (.purchaseItem auctionId buyerId)
  | .cancelListing _ auctionId sellerId => some (.cancelListing auctionId sellerId)
  | .processExpiredItems _ _ _ => some .processExpiredItems
  | .restart _ _ _ => none
  | .expireKey _ => none

end AuctionServer
