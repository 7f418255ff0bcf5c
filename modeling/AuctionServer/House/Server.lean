import AuctionServer.House.Search
import AuctionServer.House.Listings
import AuctionServer.Support.Machine

/-!
# The server as a machine

One mutex serializes the operations of an auction house, so a run of the
server is a sequence of calls.  A call carries everything the environment
decides: the clock, the outcomes of the store calls, and the orders in which
the hash map and the start-up query enumerate their elements.  Restarts and
the expiry of cache entries are calls of their own.
-/

namespace AuctionServer

/-- One call, or one act of the environment. -/
inductive Call where
  | registerItem (o : Server.RegisterOutcomes) (now : Time)
      (sellerId : UInt32) (item : Item) (price : UInt32)
  | searchItems (o : SearchOutcomes) (criteria : SearchCriteria)
  | purchaseItem (o : Server.PurchaseOutcomes) (now : Time)
      (auctionId : UInt64) (buyerId : UInt32)
  | cancelListing (o : Server.CancelOutcomes) (auctionId : UInt64)
      (sellerId : UInt32)
  | processExpiredItems (o : Server.SweepOutcomes) (now : Time)
      (order : List UInt64)
  | restart (order : List AuctionDocument) (failsAfter : Option ℕ)
      (sellers : ℕ → ReadOutcome)
  | expireKey (key : String)

/-- What a call returns, or the exception that left it. -/
inductive Reply where
  | registered (result : Except StoreException UInt64)
  | found (result : Except StoreException (List AuctionItem))
  | purchased (result : Bool)
  | cancelled (result : Except StoreException Bool)
  | swept (result : Except StoreException Unit)
  | restarted
  | keyExpired
deriving DecidableEq

namespace Server

/-- Start a house over the database a previous one left behind.  There is no
house when the constructor throws. -/
def restart (s : Server) (order : List AuctionDocument)
    (failsAfter : Option ℕ) (sellers : ℕ → ReadOutcome) : Option Server :=
  if order.isPerm s.db.auctions then
    match AuctionHouse.construct s.db order failsAfter sellers with
    | .error _ => none
    | .ok house => some { s with house }
  else none

/-- A cache entry reaches the end of its lifetime. -/
def expireKey (s : Server) (key : String) : Server :=
  { s with db := { s.db with redis := s.db.redis.erase key } }

/-- One step of the server.  A step is undefined where the program is, and
where the order given does not enumerate what it should. -/
def step [StdSort] (s : Server) : Call → Option (Reply × Server)
  | .registerItem o now sellerId item price =>
      let (result, s) := s.registerItem o now sellerId item price
      some (.registered result, s)
  | .searchItems o criteria =>
      match s.searchItems o criteria with
      | none => none
      | some (result, s) => some (.found result, s)
  | .purchaseItem o now auctionId buyerId =>
      let (result, s) := s.purchaseItem o now auctionId buyerId
      some (.purchased result, s)
  | .cancelListing o auctionId sellerId =>
      let (result, s) := s.cancelListing o auctionId sellerId
      some (.cancelled result, s)
  | .processExpiredItems o now order =>
      if order.isPerm s.house.auctionItems.keys then
        let (result, s) := s.processExpiredItems o now order
        some (.swept result, s)
      else none
  | .restart order failsAfter sellers =>
      (s.restart order failsAfter sellers).map fun s => (.restarted, s)
  | .expireKey key => some (.keyExpired, s.expireKey key)

/-- The server as a machine driven by calls. -/
def machine [StdSort] : Machine Server Call Reply where
  step := step

/-- The server at the end of its first start over a database. -/
def Starts (db : Database) (order : List AuctionDocument)
    (failsAfter : Option ℕ) (sellers : ℕ → ReadOutcome) (s : Server) : Prop :=
  Server.restart { house := AuctionHouse.initial, db } order failsAfter sellers =
    some s

end Server

/-- A recorded call with the states around it. -/
abbrev ServerEvent := Machine.Event Server Call Reply

end AuctionServer
