import AuctionServer.Store.Database

/-!
# The search cache

`cacheSearchResults` and `getCachedSearch`.  An entry keeps the fields of a
listing that the writer names; the reader fills exactly those in, marks every
listing as active, and leaves the remaining scalar fields of a freshly
declared record as they happen to be.
-/

namespace AuctionServer

/-- The scalar fields `getCachedSearch` never assigns. -/
structure UnsetFields where
  buyerId : UInt32
  expirationTime : Time
  soldTime : Time
  ownerId : UInt32
deriving DecidableEq, Inhabited

/-- The JSON object written for one listing. -/
def cachedJson (item : AuctionItem) : Json :=
  .object
    [("id", .integer item.id.toNat),
      ("seller_id", .integer item.sellerId.toNat),
      ("price", .integer item.price.toNat),
      ("registration_time", .integer item.registrationTime.toInt),
      ("item", .object
        [("id", .integer item.item.id.toNat),
          ("name", .string item.item.name),
          ("type", .integer item.item.type.toNat),
          ("rarity", .integer item.item.rarity.toNat),
          ("level", .integer item.item.level.toNat)])]

/-- The listing read back from one JSON object. -/
def cachedItem (unset : UnsetFields) (j : Json) : Option AuctionItem := do
  let id ← (← j.field "id").getUInt64
  let sellerId ← (← j.field "seller_id").getUInt32
  let price ← (← j.field "price").getUInt32
  let registrationTime ← (← j.field "registration_time").getTime
  let item ← j.field "item"
  let itemId ← (← item.field "id").getUInt32
  let name ← (← item.field "name").getString
  let type ← (← item.field "type").getUInt32
  let rarity ← (← item.field "rarity").getUInt32
  let level ← (← item.field "level").getUInt32
  some
    { id, sellerId, price, registrationTime
      status := .active
      buyerId := unset.buyerId
      expirationTime := unset.expirationTime
      soldTime := unset.soldTime
      item :=
        { id := itemId, name, type, rarity, level
          description := []
          ownerId := unset.ownerId
          attributes := [] } }

/-- The listings read from the elements of an array, each with its own unset
fields. -/
def cachedItems (unset : ℕ → UnsetFields) : List Json → Option (List AuctionItem)
  | [] => some []
  | j :: elems => do
      let item ← cachedItem (unset 0) j
      let items ← cachedItems (fun n => unset (n + 1)) elems
      some (item :: items)

namespace Database

/-- `cacheSearchResults`.  Whatever goes wrong, dumping included, is caught
and leaves no reply. -/
def cacheSearchResults (db : Database) (setex : WriteOutcome)
    (criteriaHash : UInt64) (results : List AuctionItem) : Database :=
  if db.redisAvailable then
    let resultsJson := Json.array (results.map cachedJson)
    if resultsJson.dumps then
      setex.store db
        { db with
          redis := db.redis.insert (getSearchCacheKey criteriaHash)
            resultsJson }
    else db
  else db

/-- `getCachedSearch`; `none` on a miss and on any exception. -/
def getCachedSearch (db : Database) (get : ReadOutcome)
    (unset : ℕ → UnsetFields) (criteriaHash : UInt64) :
    Option (List AuctionItem) :=
  if db.redisAvailable then
    match get with
    | .raised => none
    | .answered => do
        let cached ← db.redis[getSearchCacheKey criteriaHash]?
        cachedItems unset (← cached.elements)
  else none

end Database

end AuctionServer
