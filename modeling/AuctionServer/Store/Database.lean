import AuctionServer.Core.Json
import AuctionServer.Store.Bson
import AuctionServer.Support.Collection

/-!
# The database manager

`DatabaseManager` over a MongoDB database and a Redis server.  Every call to
one of the two servers takes the outcome of that call as an argument, so a
function of this module is defined for every way the servers may behave.

Only `mongocxx::exception` is caught by the operations on listings and users.
A Redis exception raised while dropping a cache entry, and the exception
raised by reading a balance that is not an `int32`, leave the function.
-/

namespace AuctionServer

/-! ## Outcomes of store calls -/

/-- How the server answers a read. -/
inductive ReadOutcome where
  | answered
  | raised
deriving DecidableEq, Inhabited

/-- How the server answers a write.  A write that comes back without a result
or with an exception may or may not have taken effect. -/
inductive WriteOutcome where
  | done
  | refused (applied : Bool)
  | raised (applied : Bool)
deriving DecidableEq, Inhabited

/-- The exceptions a store call can raise. -/
inductive StoreException where
  | mongo
  | bson
  | redis
deriving DecidableEq, Inhabited

/-- The write takes effect on the server. -/
def WriteOutcome.applied : WriteOutcome → Bool
  | .done => true
  | .refused applied => applied
  | .raised applied => applied

/-- What the collection holds after a write. -/
def WriteOutcome.store {α : Type} (w : WriteOutcome) (old new : α) : α :=
  if w.applied then new else old

/-- `result && result->modified_count() == 1`, false when the call throws and
the handler returns false. -/
def WriteOutcome.reports (w : WriteOutcome) (modified : Bool) : Bool :=
  match w with
  | .done => modified
  | .refused _ => false
  | .raised _ => false

@[simp] theorem WriteOutcome.store_done {α : Type} (old new : α) :
    WriteOutcome.done.store old new = new := rfl

theorem WriteOutcome.store_cases {α : Type} (w : WriteOutcome) (old new : α) :
    w.store old new = old ∨ w.store old new = new := by
  cases h : w.applied
  · exact Or.inl (by simp [store, h])
  · exact Or.inr (by simp [store, h])

/-- The two store calls of `updateUserBalance`. -/
structure BalanceOutcomes where
  find : ReadOutcome
  update : WriteOutcome
deriving DecidableEq, Inhabited

/-- The two store calls of `updateAuctionItem`. -/
structure ItemUpdateOutcomes where
  update : WriteOutcome
  del : WriteOutcome
deriving DecidableEq, Inhabited

/-! ## The database -/

/-- A document of the `users` collection.  The balance is the field whose type
the code does not trust; `none` stands for anything but an `int32`. -/
structure UserDocument where
  id : Int32
  username : Bytes
  balance : Option Int32
deriving DecidableEq, Inhabited

/-- The two collections, and the Redis server with its reachability at
start-up. -/
structure Database where
  auctions : List AuctionDocument
  users : List UserDocument
  redisAvailable : Bool
  redis : Std.ExtTreeMap String Json

namespace Database

/-- `getSearchCacheKey`. -/
def getSearchCacheKey (criteriaHash : UInt64) : String :=
  "search:" ++ toString criteriaHash.toNat

/-- `getItemCacheKey`. -/
def getItemCacheKey (itemId : UInt64) : String :=
  "item:" ++ toString itemId.toNat

/-- The user document a filter on the cast id matches. -/
def findUser (db : Database) (userId : UInt32) : Option UserDocument :=
  Collection.findOne UserDocument.id userId.toInt32 db.users

/-- The auction document a filter on the cast id matches. -/
def findAuction (db : Database) (id : UInt64) : Option AuctionDocument :=
  Collection.findOne AuctionDocument.id id.toInt64 db.auctions

/-! ## Users -/

/-- `getUserInfo`.  A balance of another type makes `get_int32` throw an
exception the handler does not catch. -/
def getUserInfo (db : Database) (find : ReadOutcome) (userId : UInt32) :
    Except StoreException (Option UserInfo) :=
  match find with
  | .raised => .ok none
  | .answered =>
      match db.findUser userId with
      | none => .ok none
      | some doc =>
          match doc.balance with
          | none => .error .bson
          | some balance => .ok (some ⟨userId, doc.username, balance.toUInt32⟩)

/-- `$set` of the balance on the first document of the user. -/
def setBalance (db : Database) (userId : UInt32) (balance : Int32) : Database :=
  { db with
    users := Collection.updateOne UserDocument.id userId.toInt32
      (fun doc => { doc with balance := some balance }) db.users }

/-- `updateUserBalance`: read the balance, add the amount as `int32`, refuse a
negative sum, write the sum back. -/
def updateUserBalance (db : Database) (o : BalanceOutcomes)
    (userId : UInt32) (amount : Int32) : Bool × Database :=
  match o.find with
  | .raised => (false, db)
  | .answered =>
      match db.findUser userId with
      | none => (false, db)
      | some doc =>
          match doc.balance with
          | none => (false, db)
          | some currentBalance =>
              let newBalance := currentBalance + amount
              if newBalance < 0 then (false, db)
              else
                (o.update.reports (decide (newBalance ≠ currentBalance)),
                  o.update.store db (db.setBalance userId newBalance))

/-! ## Auction documents -/

/-- `saveAuctionItem`: the count is one as soon as the insert succeeds. -/
def saveAuctionItem (db : Database) (insert : WriteOutcome)
    (item : AuctionItem) : Bool × Database :=
  (insert.reports true,
    insert.store db { db with auctions := db.auctions ++ [itemToBson item] })

/-- `redis_->del(key)`; its reply is not looked at. -/
def redisDel (db : Database) (del : WriteOutcome) (key : String) :
    Except StoreException Unit × Database :=
  (match del with
    | .raised _ => .error .redis
    | _ => .ok (),
    del.store db { db with redis := db.redis.erase key })

/-- `$set` of every field on the first document of the listing. -/
def setAuction (db : Database) (item : AuctionItem) : Database :=
  { db with
    auctions := Collection.updateOne AuctionDocument.id item.id.toInt64
      (fun _ => itemToBson item) db.auctions }

/-- The update matches a document and changes it. -/
def modifiesAuction (db : Database) (item : AuctionItem) : Bool :=
  Collection.modifiesOne AuctionDocument.id item.id.toInt64
    (fun _ => itemToBson item) db.auctions

/-- `updateAuctionItem`.  A MongoDB exception skips the cache and is reported
as failure; a Redis exception leaves the function. -/
def updateAuctionItem (db : Database) (o : ItemUpdateOutcomes)
    (item : AuctionItem) : Except StoreException Bool × Database :=
  let written := o.update.store db (db.setAuction item)
  match o.update with
  | .raised _ => (.ok false, written)
  | _ =>
      let modified := o.update.reports (db.modifiesAuction item)
      if written.redisAvailable then
        match written.redisDel o.del (getItemCacheKey item.id) with
        | (.error e, cleaned) => (.error e, cleaned)
        | (.ok (), cleaned) => (.ok modified, cleaned)
      else (.ok modified, written)

/-- `loadAllAuctionItems`: the documents come in some order, and the query or
its cursor may fail after any number of them, which shortens the list. -/
def loadAllAuctionItems (order : List AuctionDocument)
    (failsAfter : Option ℕ) : List AuctionItem :=
  match failsAfter with
  | none => order.map bsonToItem
  | some n => (order.take n).map bsonToItem

end Database

end AuctionServer
