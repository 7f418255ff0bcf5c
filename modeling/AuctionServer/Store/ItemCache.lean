import AuctionServer.Store.CacheCodec
import AuctionServer.Store.Codec
import AuctionServer.Support.LookAside

/-!
# The item cache

`getAuctionItem` and `deleteAuctionItem`, which work on single listings.  A
listing that is read is cached as a JSON object, field by field; the list of
fields has no attributes in it.
-/

namespace AuctionServer

/-- `get<int>()` of a status, the type an enumeration is held in. -/
def Json.getInt32 (j : Json) : Option Int32 :=
  j.numeric.map Int32.ofInt

/-- The JSON object `getAuctionItem` caches. -/
def itemToJson (item : AuctionItem) : Json :=
  .object
    [("id", .integer item.id.toNat),
      ("seller_id", .integer item.sellerId.toNat),
      ("buyer_id", .integer item.buyerId.toNat),
      ("price", .integer item.price.toNat),
      ("status", .integer item.status.code.toInt),
      ("registration_time", .integer item.registrationTime.toInt),
      ("expiration_time", .integer item.expirationTime.toInt),
      ("sold_time", .integer item.soldTime.toInt),
      ("item", .object
        [("id", .integer item.item.id.toNat),
          ("name", .string item.item.name),
          ("description", .string item.item.description),
          ("type", .integer item.item.type.toNat),
          ("rarity", .integer item.item.rarity.toNat),
          ("level", .integer item.item.level.toNat),
          ("owner_id", .integer item.item.ownerId.toNat)])]

/-- The listing `getAuctionItem` reads from a cached object.  The attribute
list stays as it was constructed. -/
def itemOfJson (j : Json) : Option AuctionItem := do
  let id ← (← j.field "id").getUInt64
  let sellerId ← (← j.field "seller_id").getUInt32
  let buyerId ← (← j.field "buyer_id").getUInt32
  let price ← (← j.field "price").getUInt32
  let status ← Bson.statusOfCode (← (← j.field "status").getInt32)
  let registrationTime ← (← j.field "registration_time").getTime
  let expirationTime ← (← j.field "expiration_time").getTime
  let soldTime ← (← j.field "sold_time").getTime
  let item ← j.field "item"
  let itemId ← (← item.field "id").getUInt32
  let name ← (← item.field "name").getString
  let description ← (← item.field "description").getString
  let type ← (← item.field "type").getUInt32
  let rarity ← (← item.field "rarity").getUInt32
  let level ← (← item.field "level").getUInt32
  let ownerId ← (← item.field "owner_id").getUInt32
  some
    { id, sellerId, buyerId, price, status, registrationTime, expirationTime
      soldTime
      item :=
        { id := itemId, name, description, type, rarity, level, ownerId
          attributes := [] } }

/-- Without its attributes. -/
def AuctionItem.plain (item : AuctionItem) : AuctionItem :=
  { item with item := { item.item with attributes := [] } }

/-- A cached listing comes back without its attributes. -/
theorem itemOfJson_itemToJson (item : AuctionItem) :
    itemOfJson (itemToJson item) = some item.plain := by
  have hstatus : Bson.statusOfCode (Int32.ofInt item.status.code.toInt) =
      some item.status := by
    cases item.status <;> decide
  have hread : itemOfJson (itemToJson item) =
      (Bson.statusOfCode (Int32.ofInt item.status.code.toInt)).bind fun status =>
        some
          { id := UInt64.ofInt item.id.toNat
            sellerId := UInt32.ofInt item.sellerId.toNat
            buyerId := UInt32.ofInt item.buyerId.toNat
            price := UInt32.ofInt item.price.toNat
            status := status
            registrationTime := Int64.ofInt item.registrationTime.toInt
            expirationTime := Int64.ofInt item.expirationTime.toInt
            soldTime := Int64.ofInt item.soldTime.toInt
            item :=
              { id := UInt32.ofInt item.item.id.toNat
                name := item.item.name
                description := item.item.description
                type := UInt32.ofInt item.item.type.toNat
                rarity := UInt32.ofInt item.item.rarity.toNat
                level := UInt32.ofInt item.item.level.toNat
                ownerId := UInt32.ofInt item.item.ownerId.toNat
                attributes := [] } } := rfl
  rw [hread, hstatus, Option.bind_some]
  simp only [ofInt_toNat_uint64, ofInt_toNat_uint32, Int64.ofInt_toInt]
  rfl

theorem plain_eq_self_iff (item : AuctionItem) :
    item.plain = item ↔ item.item.attributes = [] := by
  obtain ⟨id, ⟨itemId, name, description, type, rarity, level, ownerId,
    attributes⟩, sellerId, buyerId, price, status, registered, expires, sold⟩ := item
  simp [AuctionItem.plain, eq_comm]

/-- The listing can be written into the cache: its strings are in UTF-8. -/
theorem itemToJson_dumps (item : AuctionItem) :
    (itemToJson item).dumps = true ↔
      utf8Valid item.item.name = true ∧ utf8Valid item.item.description = true := by
  simp [itemToJson, Json.dumps, Json.fieldsDump]

/-! ## Operations on one listing -/

/-- The store calls of `getAuctionItem`. -/
structure ItemReadOutcomes where
  get : ReadOutcome
  find : ReadOutcome
  setex : WriteOutcome
deriving DecidableEq, Inhabited

/-- The store calls of `deleteAuctionItem`. -/
structure ItemDeleteOutcomes where
  delete : WriteOutcome
  del : WriteOutcome
deriving DecidableEq, Inhabited

namespace Database

/-- `redis_->setex` of a found listing.  An exception of the call, or of
`dump`, leaves the listing unreturned. -/
def cacheAuctionItem (db : Database) (setex : WriteOutcome) (id : UInt64)
    (item : AuctionItem) : Option AuctionItem × Database :=
  if db.redisAvailable then
    if (itemToJson item).dumps then
      (match setex with
        | .raised _ => none
        | _ => some item,
        setex.store db
          { db with
            redis := db.redis.insert (getItemCacheKey id) (itemToJson item) })
    else (none, db)
  else (some item, db)

/-- `getAuctionItem` once the cache has no entry. -/
def findAuctionItem (db : Database) (o : ItemReadOutcomes) (id : UInt64) :
    Option AuctionItem × Database :=
  match o.find with
  | .raised => (none, db)
  | .answered =>
      match db.findAuction id with
      | none => (none, db)
      | some doc => db.cacheAuctionItem o.setex id (bsonToItem doc)

/-- `getAuctionItem`.  Every exception is caught, and nothing is returned. -/
def getAuctionItem (db : Database) (o : ItemReadOutcomes) (id : UInt64) :
    Option AuctionItem × Database :=
  if db.redisAvailable then
    match o.get with
    | .raised => (none, db)
    | .answered =>
        match db.redis[getItemCacheKey id]? with
        | some cached => (itemOfJson cached, db)
        | none => db.findAuctionItem o id
  else db.findAuctionItem o id

/-- The first document of the listing is removed. -/
def removeAuction (db : Database) (id : UInt64) : Database :=
  { db with
    auctions := Collection.deleteOne AuctionDocument.id id.toInt64 db.auctions }

/-- `deleteAuctionItem`.  A MongoDB exception skips the cache and is reported
as failure; a Redis exception leaves the function. -/
def deleteAuctionItem (db : Database) (o : ItemDeleteOutcomes) (id : UInt64) :
    Except StoreException Bool × Database :=
  let deleted := o.delete.store db (db.removeAuction id)
  match o.delete with
  | .raised _ => (.ok false, deleted)
  | _ =>
      let counted := o.delete.reports (db.findAuction id).isSome
      if deleted.redisAvailable then
        match deleted.redisDel o.del (getItemCacheKey id) with
        | (.error e, cleaned) => (.error e, cleaned)
        | (.ok (), cleaned) => (.ok counted, cleaned)
      else (.ok counted, deleted)

end Database
end AuctionServer
