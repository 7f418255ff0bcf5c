import AuctionServer.Session.Answers
import AuctionServer.Session.Authentication
import AuctionServer.Session.Delivery

/-!
# A client of the server

`TestClient`, and the session at the other end of its connection.  The client
waits for the answer to each request, so nothing else is under way when it
writes.  What becomes of a request and of its answer is the network's.
-/

namespace AuctionServer

open Program
open ClientSession (text errorReply registerReply searchReply)

/-! ## Values and their texts -/

/-- The same value, with the members of its objects in any order. -/
inductive Json.Same : Json → Json → Prop
  | refl (j : Json) : Json.Same j j
  | array {elems elems' : List Json} (h : List.Forall₂ Json.Same elems elems') :
      Json.Same (.array elems) (.array elems')
  | object {fields fields' : List (String × Json)}
      (h : ∀ key, Option.Rel Json.Same ((Json.object fields).field key)
        ((Json.object fields').field key)) :
      Json.Same (.object fields) (.object fields')

namespace Json.Same

variable {α : Type} {j j' : Json}

theorem field (h : Same j j') (key : String) :
    Option.Rel Same (j.field key) (j'.field key) := by
  cases h with
  | refl =>
      cases j.field key with
      | none => exact .none
      | some value => exact .some (.refl value)
  | array h => exact .none
  | object h => exact h key

theorem getString (h : Same j j') : j'.getString = j.getString := by
  cases h <;> rfl

theorem getUInt32 (h : Same j j') : j'.getUInt32 = j.getUInt32 := by
  cases h <;> rfl

theorem getUInt64 (h : Same j j') : j'.getUInt64 = j.getUInt64 := by
  cases h <;> rfl

/-- What is read of a member does not depend on their order. -/
theorem bind_field {get : Json → Option α}
    (hget : ∀ {a b : Json}, Same a b → get b = get a) (h : Same j j')
    (key : String) : (j'.field key).bind get = (j.field key).bind get := by
  have hrel := h.field key
  generalize j.field key = x at hrel ⊢
  generalize j'.field key = y at hrel ⊢
  cases hrel with
  | none => rfl
  | some hvalue => exact hget hvalue

end Json.Same

/-- If the value can be dumped, a header can announce its text, and `parse`
undoes `dump`. -/
def JsonText.Legible [JsonText] (j : Json) : Prop :=
  j.dumps = true → (JsonText.text j).length < 2 ^ 32 ∧
    ∃ data, JsonText.parse (JsonText.text j) = .ok data ∧ j.Same data

/-! ## The client -/

/-- The members of a `TestClient` that concern its requests. -/
structure TestClient where
  userId : UInt32
  sessionToken : Bytes
  connected : Bool
deriving DecidableEq, Inhabited

/-- A client that has connected, the vector its caller collects auctions in,
and the session it talks to. -/
structure Talk (σ : Type) where
  client : TestClient
  auctionIds : List UInt64
  exchange : Exchange σ

/-- What becomes of a request: it does not arrive, or its answer does not, or
both do. -/
inductive Passage where
  | unsent
  | unanswered
  | answered
deriving DecidableEq

namespace TestClient

/-- The constructor and `connect`. -/
def initial : TestClient where
  userId := 0
  sessionToken := []
  connected := true

variable {σ α : Type}

/-- What the functions of a client are. -/
abbrev Action (σ : Type) : Type → Type :=
  Program MessageException (Talk σ)

/-- `connected_ = false`. -/
def disconnect (talk : Talk σ) : Talk σ :=
  { talk with client := { talk.client with connected := false } }

/-! ## Requests -/

/-- The request of `login`. -/
def loginRequest (username password : Bytes) : Json :=
  .object
    [("type", text "login"),
      ("username", .string username),
      ("password", .string password)]

/-- The request of `register_item`. -/
def registerRequest (client : TestClient) (itemId : UInt32) (itemName : Bytes)
    (price : UInt32) : Json :=
  .object
    [("type", text "register_item"),
      ("session_token", .string client.sessionToken),
      ("item_id", .integer itemId.toNat),
      ("item_name", .string itemName),
      ("price", .integer price.toNat)]

/-- The request of `search_items`. -/
def searchRequest (keyword : Bytes) : Json :=
  .object [("type", text "search_items"), ("keyword", .string keyword)]

/-- The request of `purchase_item`. -/
def purchaseRequest (client : TestClient) (auctionId : UInt64) : Json :=
  .object
    [("type", text "purchase_item"),
      ("session_token", .string client.sessionToken),
      ("auction_id", .integer auctionId.toNat)]

/-! ## Reading an answer -/

/-- `response_json["status"] == "success"`.  A response that has no members
raises an exception, of which the client makes the same as of another
status. -/
def succeeded (data : Json) : Bool :=
  (data.field "status").bind Json.getString = some (literal "success")

/-- A conversion of a member of a response; a member that is missing is
null. -/
def member (get : Json → Option α) (key : String) (data : Json) : Action σ α :=
  match (data.field key).bind get with
  | some a => ofExcept (.ok a)
  | none => ofExcept (.error .other)

/-- What a loop over `response_json["items"]` visits: nothing, if it is
missing, and a value that has no elements itself. -/
def visited (data : Json) : List Json :=
  match data.field "items" with
  | none => []
  | some .null => []
  | some (.array elems) => elems
  | some (.object fields) => fields.map Prod.snd
  | some j => [j]

/-- `auction_ids.push_back(item["auction_id"])`.  On a constant object the
behaviour is undefined if the member is missing. -/
def collect (item : Json) : Action σ Unit := fun talk =>
  match item, item.field "auction_id" with
  | .object _, none => none
  | _, field =>
      match field.bind Json.getUInt64 with
      | some id =>
          some (.ok (), { talk with auctionIds := talk.auctionIds ++ [id] })
      | none => some (.error .other, talk)

/-- The loop over the items of a response. -/
def collectAll : List Json → Action σ Unit
  | [] => pure ()
  | item :: items => do
      collect item
      collectAll items

/-- What `login` makes of a response. -/
def acceptLogin (data : Json) : Action σ Bool :=
  if succeeded data then do
    let userId ← member Json.getUInt32 "user_id" data
    change fun talk => { talk with client := { talk.client with userId } }
    let sessionToken ← member Json.getString "session_token" data
    change fun talk => { talk with client := { talk.client with sessionToken } }
    pure true
  else pure false

/-- What `search_items` makes of a response. -/
def acceptItems (data : Json) : Action σ Bool :=
  if succeeded data then do
    change fun talk => { talk with auctionIds := [] }
    collectAll (visited data)
    pure true
  else pure false

/-- What `register_item` and `purchase_item` make of a response. -/
def acceptStatus (data : Json) : Action σ Bool :=
  pure (succeeded data)

/-! ## Asking the server -/

variable [JsonText]

/-- The session reads a frame, processes the message and writes the reply. -/
def serve (c : Circumstances σ) (message : Bytes) (exchange : Exchange σ) :
    Option (Bytes × Exchange σ) :=
  match exchange.step (.deliver c message) with
  | none => none
  | some (_, processed) =>
      match processed.step (.complete 0 false) with
      | some (.written frame _, written) => some (frame, written)
      | _ => none

/-- `send_request`.  The session stops at a header that announces too much, and
what goes wrong on the way costs the client its connection. -/
def sendRequest (c : Circumstances σ) (passage : Passage) (request : Bytes) :
    Action σ (Option Bytes) := fun talk =>
  if passage = .unsent then some (.ok none, disconnect talk)
  else
    match (Protocol.framing.read (framing.frame request)).1 with
    | [] => some (.ok none, disconnect talk)
    | message :: _ =>
        match serve c message talk.exchange with
        | none => none
        | some (frame, exchange) =>
            let received := if passage = .answered then framing.read frame
              else ([], .header)
            match received.1 with
            | [] => some (.ok none, disconnect { talk with exchange })
            | response :: _ => some (.ok (some response), { talk with exchange })

/-- Send a request, and make of the response what `accept` says.  Only the
request is dumped outside a `try` block. -/
def ask (c : Circumstances σ) (passage : Passage) (request : Json)
    (accept : Json → Action σ Bool) : Action σ Bool :=
  if request.dumps then do
    let response ← sendRequest c passage (JsonText.text request)
    match response with
    | none => pure false
    | some response =>
        handle
          (do
            let data ← ofExcept (JsonText.parse response)
            accept data)
          fun _ => pure false
  else raise .other

/-- `login`. -/
def login (c : Circumstances σ) (passage : Passage) (username password : Bytes) :
    Action σ Bool := do
  let client ← look Talk.client
  if !client.connected then pure false
  else ask c passage (loginRequest username password) acceptLogin

/-- `register_item`. -/
def registerItem (c : Circumstances σ) (passage : Passage) (itemId : UInt32)
    (itemName : Bytes) (price : UInt32) : Action σ Bool := do
  let client ← look Talk.client
  if !client.connected || client.userId = 0 then pure false
  else
    ask c passage (client.registerRequest itemId itemName price) acceptStatus

/-- `search_items`. -/
def searchItems (c : Circumstances σ) (passage : Passage) (keyword : Bytes) :
    Action σ Bool := do
  let client ← look Talk.client
  if !client.connected then pure false
  else ask c passage (searchRequest keyword) acceptItems

/-- `purchase_item`. -/
def purchaseItem (c : Circumstances σ) (passage : Passage) (auctionId : UInt64) :
    Action σ Bool := do
  let client ← look Talk.client
  if !client.connected || client.userId = 0 then pure false
  else ask c passage (client.purchaseRequest auctionId) acceptStatus

end TestClient

/-! ## A client as a machine -/

/-- What a client can be asked to do. -/
inductive ClientCall where
  | login (username password : Bytes)
  | registerItem (itemId : UInt32) (itemName : Bytes) (price : UInt32)
  | searchItems (keyword : Bytes)
  | purchaseItem (auctionId : UInt64)

/-- The client is asked to do something, or the server does something for
somebody else. -/
inductive TalkInput where
  | ask (call : ClientCall) (o : MessageOutcomes) (passage : Passage)
  | elsewhere (call : Call)

/-- No connection outlives the call. -/
def Call.isRestart : Call → Bool
  | .restart _ _ _ => true
  | _ => false

/-- What the client returns, or the exception that leaves it. -/
inductive TalkOutput where
  | returned (result : Except MessageException Bool)
  | elsewhere (reply : Reply)

namespace ClientCall

/-- The value the client writes. -/
def request (client : TestClient) : ClientCall → Json
  | .login username password => TestClient.loginRequest username password
  | .registerItem itemId itemName price =>
      client.registerRequest itemId itemName price
  | .searchItems keyword => TestClient.searchRequest keyword
  | .purchaseItem auctionId => client.purchaseRequest auctionId

/-- The function of the client. -/
def run [JsonText] {σ : Type} (c : Circumstances σ) (passage : Passage) :
    ClientCall → TestClient.Action σ Bool
  | .login username password => TestClient.login c passage username password
  | .registerItem itemId itemName price =>
      TestClient.registerItem c passage itemId itemName price
  | .searchItems keyword => TestClient.searchItems c passage keyword
  | .purchaseItem auctionId => TestClient.purchaseItem c passage auctionId

end ClientCall

namespace Talk

variable [StdSort] [JsonText]

omit [StdSort] [JsonText] in
/-- A client that has connected to a server. -/
def start (s : Server) : Talk Server where
  client := TestClient.initial
  auctionIds := []
  exchange := ⟨ClientSession.initial, s⟩

/-- One step of a client, or of the server for somebody else. -/
def step (talk : Talk Server) : TalkInput → Option (TalkOutput × Talk Server)
  | .ask call o passage =>
      (call.run (Crowd.circumstances o) passage talk).map
        fun (result, talk) => (.returned result, talk)
  | .elsewhere call =>
      if call.isRestart then none
      else
        (Server.machine.step talk.exchange.house call).map fun (reply, house) =>
          (.elsewhere reply,
            { talk with exchange := { talk.exchange with house } })

/-- A client over a connection as a machine. -/
def machine : Machine (Talk Server) TalkInput TalkOutput where
  step := step

/-- A recorded step with the states around it. -/
abbrev Event : Type :=
  Machine.Event (Talk Server) TalkInput TalkOutput

end Talk
end AuctionServer
