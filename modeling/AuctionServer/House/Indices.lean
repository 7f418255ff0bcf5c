import AuctionServer.Store.Database
import AuctionServer.Support.Buckets

/-!
# The auction house and its indices

The in-memory state of `AuctionHouse`: the listings by id, the next id to
assign, and four indices.  Adding a listing to the indices and removing it
look the seller up in the database, and either can be cut short by an
exception of that lookup.
-/

namespace AuctionServer

/-- The members of `AuctionHouse`. -/
structure AuctionHouse where
  auctionItems : Std.ExtTreeMap UInt64 AuctionItem
  nextAuctionId : UInt64
  itemTypeIndex : Buckets UInt32 UInt64
  sellerIndex : Buckets Bytes UInt64
  priceIndex : Buckets UInt32 UInt64
  keywordIndex : Buckets Bytes UInt64

/-- The auction house together with the stores it works on. -/
structure Server where
  house : AuctionHouse
  db : Database

namespace AuctionHouse

/-- The members before the constructor body runs. -/
def initial : AuctionHouse where
  auctionItems := ∅
  nextAuctionId := 1
  itemTypeIndex := ∅
  sellerIndex := ∅
  priceIndex := ∅
  keywordIndex := ∅

/-- `auction_items_[id] = item`. -/
def setItem (house : AuctionHouse) (id : UInt64) (item : AuctionItem) :
    AuctionHouse :=
  { house with auctionItems := house.auctionItems.insert id item }

/-- `seller_index_[seller_info->username].insert(id)`, when there is a seller. -/
def addSeller (house : AuctionHouse) (seller : Option UserInfo) (id : UInt64) :
    AuctionHouse :=
  match seller with
  | none => house
  | some info =>
      { house with sellerIndex := house.sellerIndex.add info.username id }

/-- The seller part of `removeFromIndices`. -/
def removeSeller (house : AuctionHouse) (seller : Option UserInfo)
    (id : UInt64) : AuctionHouse :=
  match seller with
  | none => house
  | some info =>
      { house with sellerIndex := house.sellerIndex.remove info.username id }

/-- `updateIndices`. -/
def updateIndices (house : AuctionHouse) (db : Database) (seller : ReadOutcome)
    (item : AuctionItem) : Except StoreException Unit × AuctionHouse :=
  if item.status ≠ .active then (.ok (), house)
  else
    let typed :=
      { house with
        itemTypeIndex := house.itemTypeIndex.add item.item.type item.id }
    match db.getUserInfo seller item.sellerId with
    | .error e => (.error e, typed)
    | .ok info =>
        let named := typed.addSeller info item.id
        (.ok (),
          { named with
            priceIndex := named.priceIndex.add item.price item.id })

/-- `removeFromIndices`. -/
def removeFromIndices (house : AuctionHouse) (db : Database)
    (seller : ReadOutcome) (item : AuctionItem) :
    Except StoreException Unit × AuctionHouse :=
  let typed :=
    { house with
      itemTypeIndex := house.itemTypeIndex.remove item.item.type item.id }
  match db.getUserInfo seller item.sellerId with
  | .error e => (.error e, typed)
  | .ok info =>
      let named := typed.removeSeller info item.id
      (.ok (),
        { named with
          priceIndex := named.priceIndex.remove item.price item.id
          keywordIndex := named.keywordIndex.removeEverywhere item.id })

/-- The keys `indexItemKeywords` files a listing under: the words of at least
three bytes, then the whole name. -/
def keywordsOf (item : Item) : List Bytes :=
  let name := lowercase item.name
  (words name).filter (fun word => 3 ≤ word.length) ++ [name]

/-- `indexItemKeywords`. -/
def indexItemKeywords (house : AuctionHouse) (auctionId : UInt64)
    (item : Item) : AuctionHouse :=
  { house with
    keywordIndex :=
      (keywordsOf item).foldl (fun index word => index.add word auctionId)
        house.keywordIndex }

end AuctionHouse

end AuctionServer
