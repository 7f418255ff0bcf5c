import AuctionServer.Core.Item

/-!
# Auction documents and their codec

`itemToBson` and `bsonToItem` of the database manager.  A document has the
signed field types of BSON, so every unsigned field of a listing passes
through a cast in each direction.
-/

namespace AuctionServer

/-! ## Casts between signed and unsigned fields -/

@[simp] theorem toInt32_inj {a b : UInt32} : a.toInt32 = b.toInt32 ↔ a = b := by
  constructor
  · intro h
    simpa using congrArg Int32.toUInt32 h
  · rintro rfl
    rfl

@[simp] theorem toInt64_inj {a b : UInt64} : a.toInt64 = b.toInt64 ↔ a = b := by
  constructor
  · intro h
    simpa using congrArg Int64.toUInt64 h
  · rintro rfl
    rfl

theorem eq_toInt64_iff {a : Int64} {b : UInt64} :
    a = b.toInt64 ↔ a.toUInt64 = b := by
  constructor
  · rintro rfl
    simp
  · rintro rfl
    simp

/-- Distinct stored ids are distinct ids. -/
theorem toUInt64_injective : Function.Injective Int64.toUInt64 := by
  intro a b h
  simpa using congrArg UInt64.toInt64 h

/-! ## Statuses -/

/-- `static_cast<int>(status)`. -/
def AuctionStatus.code : AuctionStatus → Int32
  | .active => 0
  | .sold => 1
  | .expired => 2
  | .cancelled => 3

/-- An integer that is the code of a status. -/
abbrev StatusCode := { n : Int32 // ∃ status : AuctionStatus, status.code = n }

/-- The code stored for a status. -/
def AuctionStatus.toCode (status : AuctionStatus) : StatusCode :=
  ⟨status.code, status, rfl⟩

/-- `static_cast<AuctionStatus>` of a stored code. -/
def AuctionStatus.ofCode (c : StatusCode) : AuctionStatus :=
  if c.1 = 0 then .active
  else if c.1 = 1 then .sold
  else if c.1 = 2 then .expired
  else .cancelled

@[simp] theorem AuctionStatus.ofCode_toCode (status : AuctionStatus) :
    AuctionStatus.ofCode status.toCode = status := by
  cases status <;> decide

@[simp] theorem AuctionStatus.toCode_ofCode (c : StatusCode) :
    (AuctionStatus.ofCode c).toCode = c := by
  obtain ⟨n, status, rfl⟩ := c
  exact congrArg AuctionStatus.toCode (ofCode_toCode status)

/-! ## Documents -/

/-- The nested `item` document.  The attribute array is present only when it
was written, which happens for a nonempty list. -/
structure ItemDocument where
  id : Int32
  name : Bytes
  description : Bytes
  type : Int32
  rarity : Int32
  level : Int32
  ownerId : Int32
  attributes : Option (List ItemAttribute)
deriving DecidableEq, Inhabited

/-- A document of the `auctions` collection. -/
structure AuctionDocument where
  id : Int64
  sellerId : Int32
  buyerId : Int32
  price : Int32
  status : StatusCode
  registrationTime : Int64
  expirationTime : Int64
  soldTime : Int64
  item : ItemDocument
deriving DecidableEq

/-- The document written for a listing. -/
def itemToBson (item : AuctionItem) : AuctionDocument where
  id := item.id.toInt64
  sellerId := item.sellerId.toInt32
  buyerId := item.buyerId.toInt32
  price := item.price.toInt32
  status := item.status.toCode
  registrationTime := item.registrationTime
  expirationTime := item.expirationTime
  soldTime := item.soldTime
  item :=
    { id := item.item.id.toInt32
      name := item.item.name
      description := item.item.description
      type := item.item.type.toInt32
      rarity := item.item.rarity.toInt32
      level := item.item.level.toInt32
      ownerId := item.item.ownerId.toInt32
      attributes :=
        if item.item.attributes.isEmpty then none
        else some item.item.attributes }

/-- The listing read from a document. -/
def bsonToItem (doc : AuctionDocument) : AuctionItem where
  id := doc.id.toUInt64
  sellerId := doc.sellerId.toUInt32
  buyerId := doc.buyerId.toUInt32
  price := doc.price.toUInt32
  status := AuctionStatus.ofCode doc.status
  registrationTime := doc.registrationTime
  expirationTime := doc.expirationTime
  soldTime := doc.soldTime
  item :=
    { id := doc.item.id.toUInt32
      name := doc.item.name
      description := doc.item.description
      type := doc.item.type.toUInt32
      rarity := doc.item.rarity.toUInt32
      level := doc.item.level.toUInt32
      ownerId := doc.item.ownerId.toUInt32
      attributes := doc.item.attributes.getD [] }

/-- Decoding undoes encoding: no cast loses a bit, and the attribute list is
read back from where it was written. -/
@[simp] theorem bsonToItem_itemToBson (item : AuctionItem) :
    bsonToItem (itemToBson item) = item := by
  have hattributes : (itemToBson item).item.attributes.getD [] =
      item.item.attributes := by
    by_cases h : item.item.attributes = []
    · simp [itemToBson, h]
    · simp [itemToBson, h]
  simp only [bsonToItem, hattributes]
  simp [itemToBson]

@[simp] theorem itemToBson_id (item : AuctionItem) :
    (itemToBson item).id = item.id.toInt64 := rfl

@[simp] theorem bsonToItem_id (doc : AuctionDocument) :
    (bsonToItem doc).id = doc.id.toUInt64 := rfl

@[simp] theorem itemToBson_status (item : AuctionItem) :
    (itemToBson item).status = item.status.toCode := rfl

@[simp] theorem bsonToItem_status (doc : AuctionDocument) :
    (bsonToItem doc).status = AuctionStatus.ofCode doc.status := rfl

end AuctionServer
