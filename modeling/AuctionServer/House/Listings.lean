import AuctionServer.House.Indices

/-!
# Registering, selling and closing listings

The constructor of `AuctionHouse` and the operations that change a listing.
A `Transaction` records only whether it is finished: neither `rollback` nor the
destructor touches the database.
-/

namespace AuctionServer

/-- `Transaction`, without its pointer to the database manager. -/
structure Transaction where
  committed : Bool
deriving DecidableEq, Inhabited

/-- `beginTransaction`. -/
def Database.beginTransaction (_ : Database) : Transaction where
  committed := false

/-- `Transaction::commit`. -/
def Transaction.commit (_ : Transaction) : Transaction where
  committed := true

/-- `Transaction::rollback`, with the database it leaves behind. -/
def Transaction.rollback (_ : Transaction) (db : Database) :
    Transaction × Database :=
  ({ committed := true }, db)

namespace AuctionHouse

/-! ## Construction -/

/-- One turn of the constructor loop. -/
def loadItem (house : AuctionHouse) (db : Database) (seller : ReadOutcome)
    (item : AuctionItem) : Except StoreException Unit × AuctionHouse :=
  match (house.setItem item.id item).updateIndices db seller item with
  | (.error e, house) => (.error e, house)
  | (.ok (), house) =>
      (.ok (),
        if house.nextAuctionId ≤ item.id then
          { house with nextAuctionId := item.id + 1 }
        else house)

/-- The constructor loop; the lookups are those of the successive items. -/
def loadItems (db : Database) :
    (ℕ → ReadOutcome) → List AuctionItem → AuctionHouse →
      Except StoreException AuctionHouse
  | _, [], house => .ok house
  | sellers, item :: items, house =>
      match house.loadItem db (sellers 0) item with
      | (.error e, _) => .error e
      | (.ok (), house) => loadItems db (fun n => sellers (n + 1)) items house

/-- The constructor, given the documents the start-up query delivers. -/
def construct (db : Database) (order : List AuctionDocument)
    (failsAfter : Option ℕ) (sellers : ℕ → ReadOutcome) :
    Except StoreException AuctionHouse :=
  loadItems db sellers (Database.loadAllAuctionItems order failsAfter) initial

end AuctionHouse

namespace Server

/-! ## Registration -/

/-- The store calls of `registerItem`. -/
structure RegisterOutcomes where
  insert : WriteOutcome
  seller : ReadOutcome
deriving DecidableEq, Inhabited

/-- The listing `registerItem` creates; it expires after seven days. -/
def newListing (id : UInt64) (now : Time) (sellerId : UInt32) (item : Item)
    (price : UInt32) : AuctionItem where
  id := id
  item := item
  sellerId := sellerId
  buyerId := 0
  price := price
  status := .active
  registrationTime := now
  expirationTime := now + 7 * 24 * 60 * 60
  soldTime := 0

/-- `registerItem`; zero reports a failed insert. -/
def registerItem (s : Server) (o : RegisterOutcomes) (now : Time)
    (sellerId : UInt32) (item : Item) (price : UInt32) :
    Except StoreException UInt64 × Server :=
  let id := s.house.nextAuctionId
  let listing := newListing id now sellerId item price
  let counted := { s.house with nextAuctionId := id + 1 }
  match s.db.saveAuctionItem o.insert listing with
  | (false, db) => (.ok 0, { house := counted, db })
  | (true, db) =>
      match (counted.setItem id listing).updateIndices db o.seller listing with
      | (.error e, house) => (.error e, { house, db })
      | (.ok (), house) =>
          (.ok id, { house := house.indexItemKeywords id item, db })

/-! ## Purchase -/

/-- The store calls of `purchaseItem`, in the order they are made. -/
structure PurchaseOutcomes where
  buyer : ReadOutcome
  credit : BalanceOutcomes
  debit : BalanceOutcomes
  item : ItemUpdateOutcomes
  seller : ReadOutcome
deriving DecidableEq, Inhabited

/-- The balance check and the two balance updates: the seller is paid before
the buyer is charged. -/
def settle (db : Database) (o : PurchaseOutcomes) (listing : AuctionItem)
    (buyerId : UInt32) : Bool × Database :=
  match db.getUserInfo o.buyer buyerId with
  | .error _ => (false, db)
  | .ok none => (false, db)
  | .ok (some buyer) =>
      if buyer.balance < listing.price then (false, db)
      else
        match db.updateUserBalance o.credit listing.sellerId
            listing.price.toInt32 with
        | (false, db) => (false, db)
        | (true, db) =>
            db.updateUserBalance o.debit buyerId (-listing.price.toInt32)

/-- The listing as it is written when sold. -/
def soldListing (listing : AuctionItem) (buyerId : UInt32) (now : Time) :
    AuctionItem :=
  { listing with
    status := .sold
    buyerId := buyerId
    soldTime := now
    item := { listing.item with ownerId := buyerId } }

/-- A failed purchase rolls its transaction back and reports false. -/
def abandon (transaction : Transaction) (s : Server) : Bool × Server :=
  (false, { s with db := (transaction.rollback s.db).2 })

/-- The part of `purchaseItem` after both balances are updated. -/
def handOver (s : Server) (o : PurchaseOutcomes) (transaction : Transaction)
    (now : Time) (auctionId : UInt64) (listing : AuctionItem)
    (buyerId : UInt32) : Bool × Server :=
  let sold := soldListing listing buyerId now
  let house := s.house.setItem auctionId sold
  match s.db.updateAuctionItem o.item sold with
  | (.error _, db) => abandon transaction { house, db }
  | (.ok false, db) => abandon transaction { house, db }
  | (.ok true, db) =>
      match house.removeFromIndices db o.seller sold with
      | (.error _, house) => abandon transaction { house, db }
      | (.ok (), house) =>
          let _ := transaction.commit
          (true, { house, db })

/-- `purchaseItem`. -/
def purchaseItem (s : Server) (o : PurchaseOutcomes) (now : Time)
    (auctionId : UInt64) (buyerId : UInt32) : Bool × Server :=
  match s.house.auctionItems[auctionId]? with
  | none => (false, s)
  | some listing =>
      if listing.status ≠ .active then (false, s)
      else if listing.sellerId = buyerId then (false, s)
      else
        let transaction := s.db.beginTransaction
        match settle s.db o listing buyerId with
        | (false, db) => abandon transaction { s with db }
        | (true, db) =>
            handOver { s with db } o transaction now auctionId listing buyerId

/-! ## Cancellation -/

/-- The store calls of `cancelListing`. -/
structure CancelOutcomes where
  item : ItemUpdateOutcomes
  seller : ReadOutcome
deriving DecidableEq, Inhabited

/-- `cancelListing`. -/
def cancelListing (s : Server) (o : CancelOutcomes) (auctionId : UInt64)
    (sellerId : UInt32) : Except StoreException Bool × Server :=
  match s.house.auctionItems[auctionId]? with
  | none => (.ok false, s)
  | some listing =>
      if listing.status ≠ .active then (.ok false, s)
      else if listing.sellerId ≠ sellerId then (.ok false, s)
      else
        let cancelled := { listing with status := .cancelled }
        let house := s.house.setItem auctionId cancelled
        match s.db.updateAuctionItem o.item cancelled with
        | (.error e, db) => (.error e, { house, db })
        | (.ok false, db) => (.ok false, { house, db })
        | (.ok true, db) =>
            match house.removeFromIndices db o.seller cancelled with
            | (.error e, house) => (.error e, { house, db })
            | (.ok (), house) => (.ok true, { house, db })

/-! ## Expiry -/

/-- The store calls of `processExpiredItems`: one update and one seller lookup
for each listing that expires. -/
structure SweepOutcomes where
  item : UInt64 → ItemUpdateOutcomes
  seller : UInt64 → ReadOutcome
deriving Inhabited

/-- The listing is due at time `now`. -/
def isExpired (now : Time) (item : AuctionItem) : Bool :=
  item.status == .active && item.expirationTime < now

/-- The first loop of `processExpiredItems`, over the listings in the order the
hash map yields them; the ids to remove from the indices. -/
def expireItems (o : UInt64 → ItemUpdateOutcomes) (now : Time) :
    List UInt64 → Server → Except StoreException (List UInt64) × Server
  | [], s => (.ok [], s)
  | id :: ids, s =>
      match s.house.auctionItems[id]? with
      | none => expireItems o now ids s
      | some item =>
          if isExpired now item then
            let expired := { item with status := .expired }
            let house := s.house.setItem id expired
            match s.db.updateAuctionItem (o id) expired with
            | (.error e, db) => (.error e, { house, db })
            | (.ok false, db) => expireItems o now ids { house, db }
            | (.ok true, db) =>
                match expireItems o now ids { house, db } with
                | (.error e, s) => (.error e, s)
                | (.ok expiredIds, s) => (.ok (id :: expiredIds), s)
          else expireItems o now ids s

/-- The second loop of `processExpiredItems`. -/
def removeExpired (seller : UInt64 → ReadOutcome) (db : Database) :
    List UInt64 → AuctionHouse → Except StoreException Unit × AuctionHouse
  | [], house => (.ok (), house)
  | id :: ids, house =>
      match house.auctionItems[id]? with
      | none => removeExpired seller db ids house
      | some item =>
          match house.removeFromIndices db (seller id) item with
          | (.error e, house) => (.error e, house)
          | (.ok (), house) => removeExpired seller db ids house

/-- `processExpiredItems`, visiting the listings in the given order. -/
def processExpiredItems (s : Server) (o : SweepOutcomes) (now : Time)
    (order : List UInt64) : Except StoreException Unit × Server :=
  match expireItems o.item now order s with
  | (.error e, s) => (.error e, s)
  | (.ok expiredIds, s) =>
      match removeExpired o.seller s.db expiredIds s.house with
      | (.error e, house) => (.error e, { s with house })
      | (.ok (), house) => (.ok (), { s with house })

end Server

end AuctionServer
