import AuctionServer.Session.Deeds

/-!
# What a message is answered with

The value behind the text of a reply, as a function of what the auction house
returned, and the exchange after it.  A message of an authenticated session
that reads well makes one call, and is answered by the result of that call;
every other message is answered with an error and makes none.
-/

namespace AuctionServer
namespace ClientSession

open Program

/-! ## Replies -/

/-- What `send_error` sends. -/
def errorReply (message : Bytes) : Json :=
  .object [("status", text "error"), ("message", .string message)]

/-- What the `catch` clauses send. -/
def failureReply : MessageException → Json
  | .parseError => errorReply (literal "Invalid JSON format")
  | .other => errorReply (literal "Internal server error")

/-- What `send_success` sends; a value that cannot be dumped ends in a `catch`
clause. -/
def successReply (response : Json) : Json :=
  if response.dumps then response else failureReply .other

/-- What `handle_register_item` sends after the call. -/
def registerReply : Except MessageException UInt64 → Json
  | .error e => failureReply e
  | .ok auctionId =>
      if 0 < auctionId then
        .object
          [("status", text "success"),
            ("auction_id", .integer auctionId.toNat)]
      else errorReply (literal "Failed to register item")

/-- The response `handle_search_items` builds. -/
def searchResponse (criteria : SearchCriteria) (items : List AuctionItem) :
    Json :=
  .object
    [("status", text "success"),
      ("items", .array (items.map itemJson)),
      ("total_count", .integer items.length),
      ("page", .integer criteria.page.toNat),
      ("items_per_page", .integer criteria.itemsPerPage.toNat)]

/-- What `handle_search_items` sends after the call. -/
def searchReply (criteria : SearchCriteria) :
    Except MessageException (List AuctionItem) → Json
  | .error e => failureReply e
  | .ok items => successReply (searchResponse criteria items)

/-- What a handler of an auction sends after the call. -/
def auctionReply (success failure : String) : Except MessageException Bool → Json
  | .error e => failureReply e
  | .ok succeeded =>
      if succeeded then
        .object [("status", text "success"), ("message", text success)]
      else errorReply (literal failure)

/-! ## What can be dumped -/

theorem utf8Valid_success : utf8Valid (literal "success") = true :=
  utf8Valid_literal (by simp)

variable {criteria : SearchCriteria} {items : List AuctionItem}

/-- The item name of every listing is well-formed UTF-8. -/
def NamesDump (items : List AuctionItem) : Prop :=
  ∀ item ∈ items, utf8Valid item.item.name = true

theorem elemsDump_itemJson (items : List AuctionItem) :
    Json.elemsDump (items.map itemJson) = true ↔ NamesDump items := by
  have hitem : ∀ item, (itemJson item).dumps = utf8Valid item.item.name := by
    intro item
    simp [itemJson, Json.dumps, Json.fieldsDump]
  simp only [Json.elemsDump_map, hitem, NamesDump]

/-- The reply to a search can be dumped when the names it shows can. -/
theorem searchResponse_dumps :
    (searchResponse criteria items).dumps = true ↔ NamesDump items := by
  simp [searchResponse, Json.dumps, Json.fieldsDump, text, utf8Valid_success,
    elemsDump_itemJson]

theorem searchReply_of_dumps (h : NamesDump items) :
    searchReply criteria (.ok items) = searchResponse criteria items := by
  rw [searchReply, successReply, if_pos (searchResponse_dumps.mpr h)]

theorem searchReply_of_not_dumps (h : ¬ NamesDump items) :
    searchReply criteria (.ok items) = failureReply .other := by
  rw [searchReply, successReply,
    if_neg fun hdumps => h (searchResponse_dumps.mp hdumps)]

theorem NamesDump.mono {items' : List AuctionItem} (h : NamesDump items)
    (hsub : ∀ item ∈ items', item ∈ items) : NamesDump items' :=
  fun item hitem => h item (hsub item hitem)

variable {σ α : Type} [JsonText]

/-- The exchange after a reply, with the house the call left. -/
def answered (exchange : Exchange σ) (house : σ) (reply : Json) : Exchange σ where
  session :=
    { exchange.session with
      writer := exchange.session.writer.send (JsonText.text reply) }
  house := house

/-! ## Sending -/

variable {c : Circumstances σ} {message : Bytes} {data : Json}
  {exchange : Exchange σ} {house : σ}

theorem sendError_eq {message : Bytes} (h : utf8Valid message = true) :
    (sendError message : Handler σ Unit) exchange =
      some (.ok (), answered exchange exchange.house (errorReply message)) := by
  have hdumps : (errorReply message).dumps = true := by
    have hstatus : utf8Valid (literal "error") = true :=
      utf8Valid_literal (by simp)
    simp [errorReply, Json.dumps, Json.fieldsDump, text, h, hstatus]
  rw [errorReply] at hdumps
  rw [sendError, dump, if_pos hdumps, ofExcept_ok_bind]
  rfl

theorem recover_eq (e : MessageException) :
    (recover e : Handler σ Unit) exchange =
      some (.ok (), answered exchange exchange.house (failureReply e)) := by
  cases e with
  | parseError => exact sendError_eq (utf8Valid_literal (by simp))
  | other => exact sendError_eq (utf8Valid_literal (by simp))

/-- Behind the `catch` clauses, `send_success` always sends something. -/
theorem handle_sendSuccess (hstatus : data.contains "status" = true) :
    handle (sendSuccess data) recover exchange =
      some (.ok (), answered exchange exchange.house (successReply data)) := by
  simp only [sendSuccess, hstatus, if_true]
  by_cases hdumps : data.dumps = true
  · rw [dump, if_pos hdumps, ofExcept_ok_bind, successReply, if_pos hdumps]
    rfl
  · rw [dump, if_neg hdumps, ofExcept_error_bind, successReply, if_neg hdumps]
    exact recover_eq .other

theorem handle_sendError {message : Bytes} (h : utf8Valid message = true) :
    handle (sendError message) recover exchange =
      some (.ok (), answered exchange exchange.house (errorReply message)) := by
  rw [handle, sendError_eq h]

/-- A house call and what answers it, behind the `catch` clauses. -/
theorem handle_onHouse {p : Program MessageException σ α}
    {g : α → Handler σ Unit} {result : Except MessageException α}
    {reply : Except MessageException α → Json}
    (hcall : p exchange.house = some (result, house))
    (hvalue : ∀ a, handle (g a) recover { exchange with house } =
      some (.ok (), answered exchange house (reply (.ok a))))
    (herror : ∀ e, reply (.error e) = failureReply e) :
    handle (onHouse p >>= g) recover exchange =
      some (.ok (), answered exchange house (reply result)) := by
  have hrun : (onHouse p) exchange = some (result, { exchange with house }) := by
    simp [onHouse, within, hcall]
  cases result with
  | error e =>
      rw [handle_bind_of_error hrun, herror]
      exact recover_eq e
  | ok a =>
      rw [handle_bind_of_ok hrun]
      exact hvalue a

/-! ## The answer to each message -/

theorem processMessage_of_parse (hparse : JsonText.parse message = .ok data) :
    processMessage c message = handle (dispatch c data) recover := by
  rw [processMessage, hparse, ofExcept_ok_bind]

/-- A search is answered by what the house found. -/
theorem processMessage_search (hparse : JsonText.parse message = .ok data)
    (htype : data.field "type" = some (text "search_items"))
    {result : Except MessageException (List AuctionItem)}
    (hcall : c.house.searchItems (criteriaOf data) exchange.house =
      some (result, house)) :
    processMessage c message exchange =
      some (.ok (), answered exchange house
        (searchReply (criteriaOf data) result)) := by
  have hlogin : literal "search_items" ≠ literal "login" := by decide
  have hregister : literal "search_items" ≠ literal "register_item" := by decide
  rw [processMessage_of_parse hparse, dispatch, htype]
  simp only [text, hlogin, hregister, if_false, if_true]
  refine handle_onHouse hcall ?_ fun e => rfl
  intro items
  rw [handle_sendSuccess (by rfl)]
  rfl

/-- A search that has no end gives no answer. -/
theorem processMessage_search_none (hparse : JsonText.parse message = .ok data)
    (htype : data.field "type" = some (text "search_items"))
    (hcall : c.house.searchItems (criteriaOf data) exchange.house = none) :
    processMessage c message exchange = none := by
  have hlogin : literal "search_items" ≠ literal "login" := by decide
  have hregister : literal "search_items" ≠ literal "register_item" := by decide
  have hrun : onHouse (c.house.searchItems (criteriaOf data)) exchange = none := by
    simp [onHouse, within, hcall]
  rw [processMessage_of_parse hparse, dispatch, htype]
  simp only [text, hlogin, hregister, if_false, if_true]
  exact handle_bind_of_none hrun _

/-- The item a registration is made with. -/
def itemFor (unset : UnsetItem) (userId itemId : UInt32) (itemName : Bytes) :
    Item where
  id := itemId
  name := itemName
  description := []
  type := unset.type
  rarity := unset.rarity
  level := unset.level
  ownerId := userId
  attributes := []

/-- The members a registration needs, as they are converted. -/
structure ReadsItem (data : Json) (itemId : UInt32) (itemName : Bytes)
    (price : UInt32) : Prop where
  itemId : (data.field "item_id").bind Json.getUInt32 = some itemId
  itemName : (data.field "item_name").bind Json.getString = some itemName
  price : (data.field "price").bind Json.getUInt32 = some price

omit [JsonText] in
theorem read_bind_error {get : Json → Option α} {key : String}
    (h : (data.field key).bind get = none) (g : α → Handler σ Unit) :
    (read get key data >>= g) = raise .other := by
  rw [read, h, ofExcept_error_bind]

theorem handle_raise (e : MessageException) :
    handle (raise e : Handler σ Unit) recover exchange =
      some (.ok (), answered exchange exchange.house (failureReply e)) :=
  recover_eq e

theorem handle_authenticatedOnly (handler : Handler σ Unit) :
    handle (authenticatedOnly handler) recover exchange =
      if exchange.session.authenticated then handle handler recover exchange
      else some (.ok (), answered exchange exchange.house
        (errorReply (literal "Authentication required"))) := by
  have hlook : (look fun exchange => exchange.session.authenticated :
      Handler σ Bool) exchange =
        some (.ok exchange.session.authenticated, exchange) := rfl
  rw [authenticatedOnly, handle_bind_of_ok hlook]
  cases exchange.session.authenticated with
  | false => exact handle_sendError (utf8Valid_literal (by simp))
  | true => rfl

/-- A registration of an authenticated session is answered by what the house
returned. -/
theorem processMessage_register (hparse : JsonText.parse message = .ok data)
    (htype : data.field "type" = some (text "register_item"))
    (hauth : exchange.session.authenticated = true) {itemId price : UInt32}
    {itemName : Bytes} (hreads : ReadsItem data itemId itemName price)
    {result : Except MessageException UInt64}
    (hcall : c.house.registerItem exchange.session.userId
        (itemFor c.unset exchange.session.userId itemId itemName) price
        exchange.house = some (result, house)) :
    processMessage c message exchange =
      some (.ok (), answered exchange house (registerReply result)) := by
  have hlogin : literal "register_item" ≠ literal "login" := by decide
  have hlook : (currentUser : Handler σ UInt32) exchange =
      some (.ok exchange.session.userId, exchange) := rfl
  rw [processMessage_of_parse hparse, dispatch, htype]
  simp only [text, hlogin, if_false, if_true]
  rw [handle_authenticatedOnly, if_pos hauth, handleRegisterItem]
  simp only [field_of_bind hreads.itemId, field_of_bind hreads.itemName,
    field_of_bind hreads.price, Bool.not_true, Bool.or_self, Bool.false_eq_true,
    if_false, read_eq hreads.itemId, read_eq hreads.itemName,
    read_eq hreads.price, ofExcept_ok_bind]
  rw [handle_bind_of_ok hlook]
  refine handle_onHouse hcall ?_ fun e => rfl
  intro auctionId
  rw [registerReply]
  by_cases hpos : 0 < auctionId
  · have hdumps : (Json.object [("status", text "success"),
        ("auction_id", .integer auctionId.toNat)]).dumps = true := by
      simp [Json.dumps, Json.fieldsDump, text, utf8Valid_success]
    rw [if_pos hpos, if_pos hpos, handle_sendSuccess (by rfl), successReply,
      if_pos hdumps]
    rfl
  · rw [if_neg hpos, if_neg hpos]
    exact handle_sendError (utf8Valid_literal (by simp))

/-- A registration that lacks a member, or comes without a login, is refused. -/
theorem processMessage_register_refused
    (hparse : JsonText.parse message = .ok data)
    (htype : data.field "type" = some (text "register_item"))
    (h : exchange.session.authenticated = false ∨
      ∀ itemId itemName price, ¬ ReadsItem data itemId itemName price) :
    ∃ refusal, processMessage c message exchange =
      some (.ok (), answered exchange exchange.house (errorReply refusal)) := by
  have hlogin : literal "register_item" ≠ literal "login" := by decide
  rw [processMessage_of_parse hparse, dispatch, htype]
  simp only [text, hlogin, if_false, if_true]
  rw [handle_authenticatedOnly]
  cases hauth : exchange.session.authenticated with
  | false => exact ⟨_, if_neg (by simp)⟩
  | true =>
      rw [if_pos rfl, handleRegisterItem]
      have hreads := h.resolve_left (by simp [hauth])
      split
      · exact ⟨_, handle_sendError (utf8Valid_literal (by simp))⟩
      cases hid : (data.field "item_id").bind Json.getUInt32 with
      | none =>
          rw [read_bind_error hid]
          exact ⟨_, handle_raise _⟩
      | some itemId =>
          rw [read_eq hid, ofExcept_ok_bind]
          cases hname : (data.field "item_name").bind Json.getString with
          | none =>
              rw [read_bind_error hname]
              exact ⟨_, handle_raise _⟩
          | some itemName =>
              rw [read_eq hname, ofExcept_ok_bind]
              cases hprice : (data.field "price").bind Json.getUInt32 with
              | none =>
                  rw [read_bind_error hprice]
                  exact ⟨_, handle_raise _⟩
              | some price =>
                  exact (hreads itemId itemName price ⟨hid, hname, hprice⟩).elim

/-! ## Messages about an auction -/

/-- The call a handler makes, and the texts it answers with. -/
theorem handle_handleAuction
    {call : UInt64 → UInt32 → Program MessageException σ Bool}
    {success failure : String}
    (hsuccess : utf8Valid (literal success) = true)
    (hfailure : utf8Valid (literal failure) = true) {auctionId : UInt64}
    (hid : (data.field "auction_id").bind Json.getUInt64 = some auctionId)
    {result : Except MessageException Bool}
    (hcall : call auctionId exchange.session.userId exchange.house =
      some (result, house)) :
    handle (handleAuction call success failure data) recover exchange =
      some (.ok (), answered exchange house
        (auctionReply success failure result)) := by
  have hlook : (currentUser : Handler σ UInt32) exchange =
      some (.ok exchange.session.userId, exchange) := rfl
  rw [handleAuction, field_of_bind hid]
  simp only [Bool.not_true, Bool.false_eq_true, if_false, read_eq hid,
    ofExcept_ok_bind]
  rw [handle_bind_of_ok hlook]
  refine handle_onHouse hcall ?_ fun e => rfl
  intro succeeded
  cases succeeded with
  | false => exact handle_sendError hfailure
  | true =>
      have hdumps : (Json.object [("status", text "success"),
          ("message", text success)]).dumps = true := by
        simp [Json.dumps, Json.fieldsDump, text, utf8Valid_success, hsuccess]
      simp only [if_true, auctionReply]
      rw [handle_sendSuccess (by rfl), successReply, if_pos hdumps]
      rfl

theorem handle_handleAuction_refused
    {call : UInt64 → UInt32 → Program MessageException σ Bool}
    {success failure : String}
    (hid : (data.field "auction_id").bind Json.getUInt64 = none) :
    ∃ refusal, handle (handleAuction call success failure data) recover exchange =
      some (.ok (), answered exchange exchange.house (errorReply refusal)) := by
  rw [handleAuction]
  split
  · exact ⟨_, handle_sendError (utf8Valid_literal (by simp))⟩
  · rw [read_bind_error hid]
    exact ⟨_, handle_raise _⟩

/-- The handlers of an auction, told apart by the type of the message. -/
def auctionHandler (c : Circumstances σ) (purchase : Bool) (data : Json) :
    Handler σ Unit :=
  if purchase then handlePurchaseItem c data else handleCancelListing c data

theorem processMessage_auction (purchase : Bool)
    (hparse : JsonText.parse message = .ok data)
    (htype : data.field "type" =
      some (text (if purchase then "purchase_item" else "cancel_listing"))) :
    processMessage c message exchange =
      if exchange.session.authenticated then
        handle (auctionHandler c purchase data) recover exchange
      else some (.ok (), answered exchange exchange.house
        (errorReply (literal "Authentication required"))) := by
  have hothers : ∀ s ∈ ["login", "register_item", "search_items"],
      literal (if purchase then "purchase_item" else "cancel_listing") ≠
        literal s := by
    cases purchase <;> decide
  rw [processMessage_of_parse hparse, dispatch, htype,
    ← handle_authenticatedOnly]
  simp only [text, hothers "login" (by simp), hothers "register_item" (by simp),
    hothers "search_items" (by simp), if_false]
  cases purchase with
  | true => rfl
  | false =>
      have hpurchase : literal "cancel_listing" ≠ literal "purchase_item" := by
        decide
      simp only [Bool.false_eq_true, if_false, hpurchase, if_true]
      rfl

end ClientSession
end AuctionServer
