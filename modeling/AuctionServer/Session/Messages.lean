import AuctionServer.Core.Json
import AuctionServer.House.Criteria
import AuctionServer.Session.Writer
import AuctionServer.Support.Program

/-!
# Processing a message

`process_message` and the handlers it dispatches to, as programs over the
session and the auction house behind it.  What the environment decides is a
parameter: how texts are parsed and written, what the auction house answers,
the clock, and what an `Item` holds in the fields nobody sets.
-/

namespace AuctionServer

/-- What the `catch` clauses of `process_message` tell apart. -/
inductive MessageException where
  | parseError
  | other
deriving DecidableEq, Inhabited

/-- `json::parse`, and the text `dump` writes for a value it does not refuse.
A number out of range makes the parser raise an exception that is not a
`parse_error`. -/
class JsonText where
  parse : Bytes → Except MessageException Json
  text : Json → Bytes

/-- What a session calls on the auction house. -/
structure HouseCalls (σ : Type) where
  registerItem : UInt32 → Item → UInt32 → Program MessageException σ UInt64
  searchItems : SearchCriteria → Program MessageException σ (List AuctionItem)
  purchaseItem : UInt64 → UInt32 → Program MessageException σ Bool
  cancelListing : UInt64 → UInt32 → Program MessageException σ Bool

/-- The fields of an `Item` that `handle_register_item` never assigns. -/
structure UnsetItem where
  type : UInt32
  rarity : UInt32
  level : UInt32
deriving DecidableEq, Inhabited

/-- What a message meets when it is processed. -/
structure Circumstances (σ : Type) where
  house : HouseCalls σ
  now : Time
  unset : UnsetItem

/-- The members of `ClientSession`. -/
structure ClientSession where
  userId : UInt32
  authenticated : Bool
  writer : Writer
deriving DecidableEq, Inhabited

/-- The constructor. -/
def ClientSession.initial : ClientSession where
  userId := 0
  authenticated := false
  writer := Writer.initial

/-- A session and the auction house it talks to. -/
structure Exchange (σ : Type) where
  session : ClientSession
  house : σ

/-- What the handlers are. -/
abbrev Handler (σ : Type) : Type → Type :=
  Program MessageException (Exchange σ)

namespace ClientSession

open Program

variable {σ : Type}

/-! ## Reading a message -/

/-- `T value = data[key]`. -/
def read {α : Type} (get : Json → Option α) (key : String) (data : Json) :
    Handler σ α :=
  match (data.field key).bind get with
  | some a => ofExcept (.ok a)
  | none => ofExcept (.error .other)

/-- A condition of a search that is taken if it is there and a string. -/
def stringOr (key : String) (data : Json) (otherwise : Bytes) : Bytes :=
  match data.field key with
  | some (.string s) => s
  | _ => otherwise

/-- A condition of a search that is taken if it is there and a number. -/
def numberOr (key : String) (data : Json) (otherwise : UInt32) : UInt32 :=
  match data.field key with
  | some j => if j.isNumber then j.getUInt32.getD otherwise else otherwise
  | none => otherwise

/-- The criteria `handle_search_items` builds. -/
def criteriaOf (data : Json) : SearchCriteria :=
  let criteria : SearchCriteria := {}
  { keyword := stringOr "keyword" data criteria.keyword
    minPrice := numberOr "min_price" data criteria.minPrice
    maxPrice := numberOr "max_price" data criteria.maxPrice
    itemType := numberOr "item_type" data criteria.itemType
    sellerName := stringOr "seller_name" data criteria.sellerName
    page := numberOr "page" data criteria.page
    itemsPerPage := numberOr "items_per_page" data criteria.itemsPerPage
    sortBy := stringOr "sort_by" data criteria.sortBy
    sortOrder := stringOr "sort_order" data criteria.sortOrder }

/-! ## Replies -/

/-- `std::to_string`. -/
def decimal (n : ℤ) : Bytes :=
  literal (toString n)

/-- A string of the source as a value. -/
def text (s : String) : Json :=
  .string (literal s)

/-- `response[key] = value` for a key that an object does not have. -/
def extend (key : String) (value : Json) : Json → Json
  | .object fields => .object (fields ++ [(key, value)])
  | j => j

/-- What a search shows of a listing. -/
def itemJson (item : AuctionItem) : Json :=
  .object
    [("auction_id", .integer item.id.toNat),
      ("item_id", .integer item.item.id.toNat),
      ("item_name", .string item.item.name),
      ("seller_id", .integer item.sellerId.toNat),
      ("price", .integer item.price.toNat),
      ("registration_time", .integer item.registrationTime.toInt)]

section Sending

variable [JsonText]

/-- `dump`. -/
def dump (j : Json) : Handler σ Bytes :=
  if j.dumps then ofExcept (.ok (JsonText.text j))
  else ofExcept (.error .other)

/-- `send` on the session a message came from. -/
def reply (message : Bytes) : Handler σ Unit :=
  change fun exchange =>
    let session := exchange.session
    { exchange with
      session := { session with writer := session.writer.send message } }

/-- `send_error`. -/
def sendError (message : Bytes) : Handler σ Unit := do
  let dumped ← dump
    (.object [("status", text "error"), ("message", .string message)])
  reply dumped

/-- `send_success`. -/
def sendSuccess (data : Json) : Handler σ Unit := do
  let response :=
    if data.contains "status" then data
    else extend "status" (text "success") data
  let dumped ← dump response
  reply dumped

end Sending

/-! ## Handlers -/

/-- Run an operation of the auction house. -/
def onHouse {α : Type} (p : Program MessageException σ α) : Handler σ α :=
  within Exchange.house (fun exchange house => { exchange with house }) p

/-- `user_id_`. -/
def currentUser : Handler σ UInt32 :=
  look fun exchange => exchange.session.userId

/-- The user a login is for. -/
def loginUser : UInt32 := 1001

/-- The members a login sets. -/
def logIn (session : ClientSession) : ClientSession :=
  { session with userId := loginUser, authenticated := true }

variable [JsonText]

/-- `handle_login`. -/
def handleLogin (c : Circumstances σ) (data : Json) : Handler σ Unit :=
  if !data.contains "username" || !data.contains "password" then
    sendError (literal "Missing username or password")
  else do
    let username ← read Json.getString "username" data
    let password ← read Json.getString "password" data
    if username = literal "user123" ∧ password = literal "password123" then do
      change fun exchange => { exchange with session := exchange.session.logIn }
      let userId ← currentUser
      let sessionToken := literal "session_" ++ decimal userId.toNat ++
        literal "_" ++ decimal c.now.toInt
      sendSuccess
        (.object
          [("status", text "success"),
            ("user_id", .integer userId.toNat),
            ("session_token", .string sessionToken)])
    else sendError (literal "Invalid username or password")

/-- `handle_register_item`. -/
def handleRegisterItem (c : Circumstances σ) (data : Json) : Handler σ Unit :=
  if !data.contains "item_id" || !data.contains "item_name" ||
      !data.contains "price" then
    sendError (literal "Missing item information")
  else do
    let itemId ← read Json.getUInt32 "item_id" data
    let itemName ← read Json.getString "item_name" data
    let price ← read Json.getUInt32 "price" data
    let userId ← currentUser
    let item : Item :=
      { id := itemId
        name := itemName
        description := []
        type := c.unset.type
        rarity := c.unset.rarity
        level := c.unset.level
        ownerId := userId
        attributes := [] }
    let auctionId ← onHouse (c.house.registerItem userId item price)
    if 0 < auctionId then
      sendSuccess
        (.object
          [("status", text "success"),
            ("auction_id", .integer auctionId.toNat)])
    else sendError (literal "Failed to register item")

/-- `handle_search_items`. -/
def handleSearchItems (c : Circumstances σ) (data : Json) : Handler σ Unit := do
  let criteria := criteriaOf data
  let items ← onHouse (c.house.searchItems criteria)
  sendSuccess
    (.object
      [("status", text "success"),
        ("items", .array (items.map itemJson)),
        ("total_count", .integer items.length),
        ("page", .integer criteria.page.toNat),
        ("items_per_page", .integer criteria.itemsPerPage.toNat)])

/-- A call about the auction a message names, for the user of the session. -/
def handleAuction (call : UInt64 → UInt32 → Program MessageException σ Bool)
    (success failure : String) (data : Json) : Handler σ Unit :=
  if !data.contains "auction_id" then sendError (literal "Missing auction_id")
  else do
    let auctionId ← read Json.getUInt64 "auction_id" data
    let userId ← currentUser
    let succeeded ← onHouse (call auctionId userId)
    if succeeded then
      sendSuccess
        (.object [("status", text "success"), ("message", text success)])
    else sendError (literal failure)

/-- `handle_purchase_item`. -/
def handlePurchaseItem (c : Circumstances σ) (data : Json) : Handler σ Unit :=
  handleAuction c.house.purchaseItem "Item purchased successfully"
    "Failed to purchase item" data

/-- `handle_cancel_listing`. -/
def handleCancelListing (c : Circumstances σ) (data : Json) : Handler σ Unit :=
  handleAuction c.house.cancelListing "Listing cancelled successfully"
    "Failed to cancel listing" data

/-! ## Dispatch -/

/-- A handler behind the check of `authenticated_`. -/
def authenticatedOnly (handler : Handler σ Unit) : Handler σ Unit := do
  let authenticated ← look fun exchange => exchange.session.authenticated
  if !authenticated then sendError (literal "Authentication required")
  else handler

/-- The body of the `try` block behind the parser. -/
def dispatch (c : Circumstances σ) (data : Json) : Handler σ Unit :=
  match data.field "type" with
  | some (.string type) =>
      if type = literal "login" then handleLogin c data
      else if type = literal "register_item" then
        authenticatedOnly (handleRegisterItem c data)
      else if type = literal "search_items" then handleSearchItems c data
      else if type = literal "purchase_item" then
        authenticatedOnly (handlePurchaseItem c data)
      else if type = literal "cancel_listing" then
        authenticatedOnly (handleCancelListing c data)
      else sendError (literal "Unknown message type: " ++ type)
  | _ =>
      sendError
        (literal "Invalid message format: missing or invalid 'type' field")

/-- The `catch` clauses. -/
def recover : MessageException → Handler σ Unit
  | .parseError => sendError (literal "Invalid JSON format")
  | .other => sendError (literal "Internal server error")

/-- `process_message`. -/
def processMessage (c : Circumstances σ) (message : Bytes) : Handler σ Unit :=
  handle
    (do
      let data ← ofExcept (JsonText.parse message)
      dispatch c data)
    recover

end ClientSession

/-! ## A few texts -/

/-- A parser that knows some texts and takes every other for malformed, and
the texts of the replies to logins and errors. -/
@[reducible] def JsonText.sample (known : List (Bytes × Json)) : JsonText where
  parse message :=
    match known.find? fun entry => entry.1 = message with
    | some entry => .ok entry.2
    | none => .error .parseError
  text
    | .object [(_, .string status), (_, .string message)] =>
        literal "\x7b\"message\":\"" ++ message ++
          literal "\",\"status\":\"" ++ status ++ literal "\"\x7d"
    | .object [(_, .string status), (_, .integer userId), (_, .string token)] =>
        literal "\x7b\"session_token\":\"" ++ token ++
          literal "\",\"status\":\"" ++ status ++ literal "\",\"user_id\":" ++
          ClientSession.decimal userId ++ literal "\x7d"
    | _ => literal "null"

end AuctionServer
