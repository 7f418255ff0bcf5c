import AuctionServer.Store.Bson
import AuctionServer.Support.Document

/-!
# The document format

The codec of the database manager key by key: `itemToBson` writes a listing
with a stream builder, and `bsonToItem` looks every field up again.  The two
agree with the typed codec, so nothing is lost under a wrong key or in the
wrong document.
-/

namespace AuctionServer

namespace Bson

/-- The document of an attribute. -/
def attributeToBson (attr : ItemAttribute) : DocumentValue :=
  .document [("name", .utf8 attr.name), ("value", .utf8 attr.value)]

/-- The array of the attributes, appended one by one. -/
def attributesArray (attributes : List ItemAttribute) : List DocumentValue :=
  attributes.foldl (fun elems attr => elems ++ [attributeToBson attr]) []

/-- `DatabaseManager::itemToBson`.  The nested document stays open until the
attributes are written. -/
def itemToBson (item : AuctionItem) : Option DocumentFields :=
  let builder := DocumentBuilder.empty
    |>.append "id" (.int64 item.id.toInt64)
    |>.append "seller_id" (.int32 item.sellerId.toInt32)
    |>.append "buyer_id" (.int32 item.buyerId.toInt32)
    |>.append "price" (.int32 item.price.toInt32)
    |>.append "status" (.int32 item.status.code)
    |>.append "registration_time" (.int64 item.registrationTime)
    |>.append "expiration_time" (.int64 item.expirationTime)
    |>.append "sold_time" (.int64 item.soldTime)
    |>.openDocument "item"
    |>.append "id" (.int32 item.item.id.toInt32)
    |>.append "name" (.utf8 item.item.name)
    |>.append "description" (.utf8 item.item.description)
    |>.append "type" (.int32 item.item.type.toInt32)
    |>.append "rarity" (.int32 item.item.rarity.toInt32)
    |>.append "level" (.int32 item.item.level.toInt32)
    |>.append "owner_id" (.int32 item.item.ownerId.toInt32)
  let builder :=
    if !item.item.attributes.isEmpty then
      builder.append "attributes" (.array (attributesArray item.item.attributes))
    else builder
  builder.closeDocument.bind DocumentBuilder.finalize

/-- `static_cast<AuctionStatus>` of a stored number.  A number that is no
status has no counterpart in the model. -/
def statusOfCode (n : Int32) : Option AuctionStatus :=
  if n = 0 then some .active
  else if n = 1 then some .sold
  else if n = 2 then some .expired
  else if n = 3 then some .cancelled
  else none

/-- An element of the attribute array. -/
def bsonToAttribute : DocumentValue → Option ItemAttribute
  | .document attr => do
      let name ← DocumentFields.getUtf8 attr "name"
      let value ← DocumentFields.getUtf8 attr "value"
      return ⟨name, value⟩
  | _ => none

/-- The attributes of a nested item document; none if there is no array. -/
def bsonToAttributes (itemDoc : DocumentFields) :
    Option (List ItemAttribute) :=
  match itemDoc.get "attributes" with
  | none => some []
  | some (.array attributes) => attributes.mapM bsonToAttribute
  | some _ => none

/-- The item in its nested document. -/
def bsonToNestedItem (itemDoc : DocumentFields) : Option Item := do
  let id ← itemDoc.getInt32 "id"
  let name ← itemDoc.getUtf8 "name"
  let description ← itemDoc.getUtf8 "description"
  let type ← itemDoc.getInt32 "type"
  let rarity ← itemDoc.getInt32 "rarity"
  let level ← itemDoc.getInt32 "level"
  let ownerId ← itemDoc.getInt32 "owner_id"
  let attributes ← bsonToAttributes itemDoc
  return {
    id := id.toUInt32
    name := name
    description := description
    type := type.toUInt32
    rarity := rarity.toUInt32
    level := level.toUInt32
    ownerId := ownerId.toUInt32
    attributes := attributes }

/-- `DatabaseManager::bsonToItem`. -/
def bsonToItem (doc : DocumentFields) : Option AuctionItem := do
  let id ← doc.getInt64 "id"
  let sellerId ← doc.getInt32 "seller_id"
  let buyerId ← doc.getInt32 "buyer_id"
  let price ← doc.getInt32 "price"
  let status ← (← doc.getInt32 "status") |> statusOfCode
  let registrationTime ← doc.getInt64 "registration_time"
  let expirationTime ← doc.getInt64 "expiration_time"
  let soldTime ← doc.getInt64 "sold_time"
  let item ← (← doc.getDocument "item") |> bsonToNestedItem
  return {
    id := id.toUInt64
    item := item
    sellerId := sellerId.toUInt32
    buyerId := buyerId.toUInt32
    price := price.toUInt32
    status := status
    registrationTime := registrationTime
    expirationTime := expirationTime
    soldTime := soldTime }

/-! ## The typed documents, key by key -/

/-- The fields of a nested item document. -/
def nestedFields (doc : ItemDocument) : DocumentFields :=
  [("id", .int32 doc.id), ("name", .utf8 doc.name),
    ("description", .utf8 doc.description), ("type", .int32 doc.type),
    ("rarity", .int32 doc.rarity), ("level", .int32 doc.level),
    ("owner_id", .int32 doc.ownerId)] ++
    (doc.attributes.map fun attributes =>
      ("attributes", DocumentValue.array (attributes.map attributeToBson))).toList

/-- The fields of an auction document. -/
def fieldsOf (doc : AuctionDocument) : DocumentFields :=
  [("id", .int64 doc.id), ("seller_id", .int32 doc.sellerId),
    ("buyer_id", .int32 doc.buyerId), ("price", .int32 doc.price),
    ("status", .int32 doc.status.1),
    ("registration_time", .int64 doc.registrationTime),
    ("expiration_time", .int64 doc.expirationTime),
    ("sold_time", .int64 doc.soldTime),
    ("item", .document (nestedFields doc.item))]

theorem attributesArray_eq (attributes : List ItemAttribute) :
    attributesArray attributes = attributes.map attributeToBson := by
  have happend : ∀ elems, attributes.foldl
      (fun elems attr => elems ++ [attributeToBson attr]) elems =
        elems ++ attributes.map attributeToBson := by
    induction attributes with
    | nil => simp
    | cons attr attributes ih =>
        intro elems
        rw [List.foldl_cons, ih, List.append_assoc]
        rfl
  rw [attributesArray, happend, List.nil_append]

@[simp] theorem bsonToAttribute_attributeToBson (attr : ItemAttribute) :
    bsonToAttribute (attributeToBson attr) = some attr := rfl

theorem mapM_bsonToAttribute (attributes : List ItemAttribute) :
    (attributes.map attributeToBson).mapM bsonToAttribute =
      some attributes := by
  induction attributes with
  | nil => rfl
  | cons attr attributes ih => simp [List.mapM_cons, ih]

theorem statusOfCode_val (c : StatusCode) :
    statusOfCode c.1 = some (AuctionStatus.ofCode c) := by
  obtain ⟨n, status, rfl⟩ := c
  cases status <;> decide

/-- The builder writes the fields of the typed document. -/
theorem itemToBson_eq (item : AuctionItem) :
    itemToBson item = some (fieldsOf (AuctionServer.itemToBson item)) := by
  by_cases hempty : item.item.attributes = []
  · simp [itemToBson, hempty, DocumentBuilder.empty,
      DocumentBuilder.openDocument, DocumentBuilder.closeDocument,
      DocumentBuilder.finalize, fieldsOf, nestedFields,
      AuctionServer.itemToBson, AuctionStatus.toCode]
  · simp [itemToBson, hempty, DocumentBuilder.empty,
      DocumentBuilder.openDocument, DocumentBuilder.closeDocument,
      DocumentBuilder.finalize, fieldsOf, nestedFields, attributesArray_eq,
      AuctionServer.itemToBson, AuctionStatus.toCode]

theorem bsonToAttributes_nestedFields (doc : ItemDocument) :
    bsonToAttributes (nestedFields doc) = some (doc.attributes.getD []) := by
  cases hattributes : doc.attributes with
  | none =>
      simp [bsonToAttributes, nestedFields, hattributes,
        DocumentFields.get_cons]
  | some attributes =>
      have hmapM := mapM_bsonToAttribute attributes
      rw [List.mapM_map] at hmapM
      simp [bsonToAttributes, nestedFields, hattributes,
        DocumentFields.get_cons, hmapM]

/-- Reading the fields of a typed document gives its listing. -/
theorem bsonToItem_fieldsOf (doc : AuctionDocument) :
    bsonToItem (fieldsOf doc) = some (AuctionServer.bsonToItem doc) := by
  have hattributes := bsonToAttributes_nestedFields doc.item
  have hitem : bsonToNestedItem (nestedFields doc.item) =
      some (AuctionServer.bsonToItem doc).item := by
    simp only [bsonToNestedItem, hattributes]
    simp [nestedFields, DocumentFields.getInt32, DocumentFields.getUtf8,
      DocumentFields.get_cons, AuctionServer.bsonToItem]
  simp [bsonToItem, fieldsOf, DocumentFields.getInt32, DocumentFields.getInt64,
    DocumentFields.getDocument, DocumentFields.get_cons, statusOfCode_val,
    hitem, AuctionServer.bsonToItem]

/-- Every listing survives the document format, and every document written
for a listing is what is written for the listing read from it. -/
theorem stored_item_survives :
    (∀ item, ∃ doc, itemToBson item = some doc ∧ bsonToItem doc = some item) ∧
      ∀ item doc, itemToBson item = some doc →
        ∃ item', bsonToItem doc = some item' ∧ itemToBson item' = some doc := by
  have hread : ∀ item, bsonToItem (fieldsOf (AuctionServer.itemToBson item)) =
      some item := by
    intro item
    rw [bsonToItem_fieldsOf, bsonToItem_itemToBson]
  constructor
  · intro item
    exact ⟨_, itemToBson_eq item, hread item⟩
  · intro item doc hdoc
    rw [itemToBson_eq] at hdoc
    obtain rfl := Option.some.inj hdoc
    exact ⟨item, hread item, itemToBson_eq item⟩

end Bson
end AuctionServer
