import AuctionServer.Session.Client

/-!
# Requests and their answers

What a session makes of the requests a client writes, and what it answers.
Every answer can be dumped, so the client gets one.  A request and its answer
get through when they are within what a header announces and are read back.
-/

namespace AuctionServer

open Program
open ClientSession (text errorReply registerReply searchReply auctionReply
  failureReply answered itemFor criteriaOf loginUser decimal processMessage)
open Crowd (circumstances)

/-! ## Calls -/

namespace ClientCall

/-- The client makes the call only when it is logged in. -/
def needsLogin : ClientCall → Bool
  | .login _ _ => false
  | .registerItem _ _ _ => true
  | .searchItems _ => false
  | .purchaseItem _ => true

/-- Every text in the call is well-formed UTF-8. -/
def writable : ClientCall → Bool
  | .login username password => utf8Valid username && utf8Valid password
  | .registerItem _ itemName _ => utf8Valid itemName
  | .searchItems keyword => utf8Valid keyword
  | .purchaseItem _ => true

/-- The call is a login that is accepted. -/
def logsIn : ClientCall → Bool
  | .login username password =>
      username = literal "user123" && password = literal "password123"
  | _ => false

end ClientCall

/-! ## What a session answers a client -/

/-- What `handle_login` sends when the name and the password are right. -/
def loginReply (now : Time) : Json :=
  .object
    [("status", text "success"),
      ("user_id", .integer loginUser.toNat),
      ("session_token", .string (literal "session_" ++
        decimal loginUser.toNat ++ literal "_" ++ decimal now.toInt))]

namespace ClientCall

variable [StdSort]

/-- What a session answers a call with for which its login suffices, and the
server after it. -/
def answer (o : MessageOutcomes) (s : Server) :
    ClientCall → Option (Json × Server)
  | .login username password =>
      some (if (login username password).logsIn then loginReply o.now
        else errorReply (literal "Invalid username or password"), s)
  | .registerItem itemId itemName price =>
      let (result, server) := s.registerItem o.register o.now loginUser
        (itemFor o.unset loginUser itemId itemName) price
      some (registerReply (Server.seen result), server)
  | .searchItems keyword =>
      (s.searchItems o.search { keyword }).map fun (result, server) =>
        (searchReply { keyword } (Server.seen result), server)
  | .purchaseItem auctionId =>
      let (result, server) := s.purchaseItem o.purchase o.now auctionId loginUser
      some (auctionReply "Item purchased successfully"
        "Failed to purchase item" (.ok result), server)

end ClientCall

/-! ## Which values can be dumped -/

/-- The digits of a number are ASCII. -/
theorem repr_ascii {n : ℕ} : ∀ b ∈ literal n.repr, b < 0x80 := by
  apply literal_ascii
  intro c hc
  rw [Nat.toList_repr] at hc
  have hdigit := Nat.isDigit_of_mem_toDigits (by decide) (by decide) hc
  simp only [Char.isDigit, Bool.and_eq_true, decide_eq_true_eq] at hdigit
  obtain ⟨-, hnine⟩ := hdigit
  have hnat : c.toNat ≤ 57 := hnine
  omega

theorem decimal_ascii {n : ℤ} : ∀ b ∈ decimal n, b < 0x80 := by
  cases n with
  | ofNat n => exact repr_ascii
  | negSucc n =>
      intro b hb
      have hsplit : decimal (.negSucc n) =
          literal "-" ++ literal (n + 1).repr := by
        simp [decimal, literal, toString, Int.repr]
      rw [hsplit, List.mem_append] at hb
      rcases hb with hsign | hdigits
      · exact literal_ascii (by simp) b hsign
      · exact repr_ascii b hdigits

theorem loginReply_dumps (now : Time) : (loginReply now).dumps = true := by
  have htoken : utf8Valid (literal "session_" ++ decimal loginUser.toNat ++
      literal "_" ++ decimal now.toInt) = true := by
    apply utf8Valid_of_ascii
    intro b hb
    simp only [List.mem_append] at hb
    rcases hb with ((hfirst | hid) | hbetween) | hnow
    · exact literal_ascii (by simp) b hfirst
    · exact decimal_ascii b hid
    · exact literal_ascii (by simp) b hbetween
    · exact decimal_ascii b hnow
  simpa [loginReply, Json.dumps, Json.fieldsDump, text,
    ClientSession.utf8Valid_success] using htoken

theorem errorReply_dumps {message : Bytes} (h : utf8Valid message = true) :
    (errorReply message).dumps = true := by
  have hstatus : utf8Valid (literal "error") = true :=
    utf8Valid_literal (by simp)
  simp [errorReply, Json.dumps, Json.fieldsDump, text, h, hstatus]

theorem failureReply_dumps (e : MessageException) :
    (failureReply e).dumps = true := by
  cases e with
  | parseError => exact errorReply_dumps (utf8Valid_literal (by simp))
  | other => exact errorReply_dumps (utf8Valid_literal (by simp))

theorem registerReply_dumps (result : Except MessageException UInt64) :
    (registerReply result).dumps = true := by
  cases result with
  | error e => exact failureReply_dumps e
  | ok auctionId =>
      rw [registerReply]
      split
      · simp [Json.dumps, Json.fieldsDump, text, ClientSession.utf8Valid_success]
      · exact errorReply_dumps (utf8Valid_literal (by simp))

theorem searchReply_dumps (criteria : SearchCriteria)
    (result : Except MessageException (List AuctionItem)) :
    (searchReply criteria result).dumps = true := by
  cases result with
  | error e => exact failureReply_dumps e
  | ok items =>
      rw [searchReply, ClientSession.successReply]
      split
      · next hdumps => exact hdumps
      · exact failureReply_dumps .other

theorem auctionReply_dumps {success failure : String}
    (hsuccess : utf8Valid (literal success) = true)
    (hfailure : utf8Valid (literal failure) = true)
    (result : Except MessageException Bool) :
    (auctionReply success failure result).dumps = true := by
  cases result with
  | error e => exact failureReply_dumps e
  | ok succeeded =>
      rw [auctionReply]
      split
      · simp [Json.dumps, Json.fieldsDump, text, ClientSession.utf8Valid_success,
          hsuccess]
      · exact errorReply_dumps hfailure

namespace ClientCall

variable {call : ClientCall} {client : TestClient}

theorem request_dumps (htoken : utf8Valid client.sessionToken = true) :
    (call.request client).dumps = call.writable := by
  have htypes : ∀ s ∈ ["login", "register_item", "search_items",
      "purchase_item"], utf8Valid (literal s) = true := by
    intro s hs
    apply utf8Valid_literal
    fin_cases hs <;> simp
  cases call <;>
    simp [request, TestClient.loginRequest, TestClient.registerRequest,
      TestClient.searchRequest, TestClient.purchaseRequest, writable, Json.dumps,
      Json.fieldsDump, text, htoken, htypes]

variable [StdSort] {o : MessageOutcomes} {s s' : Server} {reply : Json}

/-- Whatever a session answers can be dumped. -/
theorem answer_dumps (h : call.answer o s = some (reply, s')) :
    reply.dumps = true := by
  cases call with
  | login username password =>
      simp only [answer, Option.some.injEq, Prod.mk.injEq] at h
      obtain ⟨rfl, -⟩ := h
      split
      · exact loginReply_dumps o.now
      · exact errorReply_dumps (utf8Valid_literal (by simp))
  | registerItem itemId itemName price =>
      simp only [answer, Option.some.injEq, Prod.mk.injEq] at h
      obtain ⟨rfl, -⟩ := h
      exact registerReply_dumps _
  | searchItems keyword =>
      obtain ⟨⟨result, server⟩, -, heq⟩ := Option.map_eq_some_iff.mp h
      simp only [Prod.mk.injEq] at heq
      obtain ⟨rfl, -⟩ := heq
      exact searchReply_dumps _ _
  | purchaseItem auctionId =>
      simp only [answer, Option.some.injEq, Prod.mk.injEq] at h
      obtain ⟨rfl, -⟩ := h
      exact auctionReply_dumps (utf8Valid_literal (by simp))
        (utf8Valid_literal (by simp)) _

end ClientCall

/-! ## What a session makes of a request -/

/-- The member is a string, in whatever order the members stand. -/
theorem Json.Same.field_text {j j' : Json} (h : j.Same j') {key : String}
    {s : Bytes} (hfield : j.field key = some (.string s)) :
    j'.field key = some (.string s) := by
  have hrel := h.field key
  rw [hfield] at hrel
  generalize j'.field key = field at hrel ⊢
  cases hrel with
  | some hvalue =>
      cases hvalue
      rfl

theorem Json.Same.field_none {j j' : Json} (h : j.Same j') {key : String}
    (hfield : j.field key = none) : j'.field key = none := by
  have hrel := h.field key
  rw [hfield] at hrel
  generalize j'.field key = field at hrel ⊢
  cases hrel
  rfl

variable [JsonText] {o : MessageOutcomes} {client : TestClient}
  {message : Bytes} {data : Json}

section Login

variable {σ : Type} {c : Circumstances σ} {exchange : Exchange σ}
  {username password : Bytes}

/-- A login over the wire. -/
theorem processMessage_loginRequest (hparse : JsonText.parse message = .ok data)
    (hsame : (TestClient.loginRequest username password).Same data) :
    processMessage c message exchange =
      if (ClientCall.login username password).logsIn then
        some (.ok (), answered
          { exchange with session := exchange.session.logIn } exchange.house
          (loginReply c.now))
      else
        some (.ok (), answered exchange exchange.house
          (errorReply (literal "Invalid username or password"))) := by
  have htype : data.field "type" = some (text "login") :=
    hsame.field_text (by simp [TestClient.loginRequest, Json.field, text])
  have husername : (data.field "username").bind Json.getString =
      some username := by
    rw [hsame.bind_field Json.Same.getString]
    simp [TestClient.loginRequest, Json.field, Json.getString]
  have hpassword : (data.field "password").bind Json.getString =
      some password := by
    rw [hsame.bind_field Json.Same.getString]
    simp [TestClient.loginRequest, Json.field, Json.getString]
  rw [ClientSession.processMessage_of_parse hparse, ClientSession.dispatch,
    htype]
  simp only [text, if_true, ClientSession.handleLogin,
    ClientSession.field_of_bind husername, ClientSession.field_of_bind hpassword,
    Bool.not_true, Bool.or_self, Bool.false_eq_true, if_false,
    ClientSession.read_eq husername, ClientSession.read_eq hpassword,
    ofExcept_ok_bind]
  by_cases hright : username = literal "user123" ∧
      password = literal "password123"
  · rw [if_pos hright, if_pos (by simpa [ClientCall.logsIn] using hright)]
    have hlook : (ClientSession.currentUser : Handler σ UInt32)
        { exchange with session := exchange.session.logIn } =
          some (.ok loginUser,
            { exchange with session := exchange.session.logIn }) := rfl
    have hdumps := loginReply_dumps c.now
    simp only [loginReply, text] at hdumps
    rw [handle_bind_of_ok rfl, handle_bind_of_ok hlook,
      ClientSession.handle_sendSuccess (by rfl), ClientSession.successReply,
      if_pos hdumps]
    rfl
  · rw [if_neg hright, if_neg (by simpa [ClientCall.logsIn] using hright)]
    exact ClientSession.handle_sendError (utf8Valid_literal (by simp))

end Login

/-- The login of a session is enough for a call, and it is the user a login is
for. -/
def ClientSession.Admits (session : ClientSession) (call : ClientCall) : Prop :=
  call.needsLogin = true →
    session.authenticated = true ∧ session.userId = loginUser

/-- The session after a call. -/
def ClientCall.after (call : ClientCall) (session : ClientSession) :
    ClientSession :=
  if call.logsIn then session.logIn else session

variable [StdSort] {exchange : Exchange Server} {call : ClientCall}

/-- A registration over the wire. -/
theorem processMessage_registerRequest {itemId price : UInt32}
    {itemName : Bytes} (hparse : JsonText.parse message = .ok data)
    (hsame : (client.registerRequest itemId itemName price).Same data)
    (hauth : exchange.session.authenticated = true)
    (huser : exchange.session.userId = loginUser) :
    processMessage (circumstances o) message exchange =
      ((ClientCall.registerItem itemId itemName price).answer o
        exchange.house).map fun (reply, house) =>
          (.ok (), answered exchange house reply) := by
  have htype : data.field "type" = some (text "register_item") :=
    hsame.field_text (by simp [TestClient.registerRequest, Json.field, text])
  have hreads : ClientSession.ReadsItem data itemId itemName price := by
    constructor
    · rw [hsame.bind_field Json.Same.getUInt32]
      simp [TestClient.registerRequest, Json.field, Json.getUInt32, Json.numeric,
        ofInt_toNat_uint32]
    · rw [hsame.bind_field Json.Same.getString]
      simp [TestClient.registerRequest, Json.field, Json.getString]
    · rw [hsame.bind_field Json.Same.getUInt32]
      simp [TestClient.registerRequest, Json.field, Json.getUInt32, Json.numeric,
        ofInt_toNat_uint32]
  rcases hcall : exchange.house.registerItem o.register o.now loginUser
    (itemFor o.unset loginUser itemId itemName) price with ⟨result, house⟩
  simp only [ClientCall.answer, hcall, Option.map_some]
  refine ClientSession.processMessage_register hparse htype hauth hreads ?_
  rw [huser]
  simp only [circumstances, Server.calls, hcall]

/-- A search over the wire. -/
theorem processMessage_searchRequest {keyword : Bytes}
    (hparse : JsonText.parse message = .ok data)
    (hsame : (TestClient.searchRequest keyword).Same data) :
    processMessage (circumstances o) message exchange =
      ((ClientCall.searchItems keyword).answer o exchange.house).map
        fun (reply, house) => (.ok (), answered exchange house reply) := by
  have htype : data.field "type" = some (text "search_items") :=
    hsame.field_text (by simp [TestClient.searchRequest, Json.field, text])
  have hcriteria : criteriaOf data = { keyword } := by
    have hother : ∀ key ∈ ["min_price", "max_price", "item_type", "seller_name",
        "page", "items_per_page", "sort_by", "sort_order"],
        data.field key = none := by
      intro key hkey
      refine hsame.field_none ?_
      fin_cases hkey <;> simp [TestClient.searchRequest, Json.field]
    have hkeyword : data.field "keyword" = some (.string keyword) :=
      hsame.field_text (by simp [TestClient.searchRequest, Json.field])
    simp [criteriaOf, ClientSession.stringOr, ClientSession.numberOr, hkeyword,
      hother]
  cases hcall : exchange.house.searchItems o.search { keyword } with
  | none =>
      simp only [ClientCall.answer, hcall, Option.map_none]
      refine ClientSession.processMessage_search_none hparse htype ?_
      simp only [circumstances, Server.calls, hcriteria, hcall, Option.map_none]
  | some found =>
      obtain ⟨result, house⟩ := found
      have hfound : (circumstances o).house.searchItems (criteriaOf data)
          exchange.house = some (Server.seen result, house) := by
        simp only [circumstances, Server.calls, hcriteria, hcall,
          Option.map_some]
      rw [ClientSession.processMessage_search hparse htype hfound, hcriteria]
      simp only [ClientCall.answer, hcall, Option.map_some]

/-- A purchase over the wire. -/
theorem processMessage_purchaseRequest {auctionId : UInt64}
    (hparse : JsonText.parse message = .ok data)
    (hsame : (client.purchaseRequest auctionId).Same data)
    (hauth : exchange.session.authenticated = true)
    (huser : exchange.session.userId = loginUser) :
    processMessage (circumstances o) message exchange =
      ((ClientCall.purchaseItem auctionId).answer o exchange.house).map
        fun (reply, house) => (.ok (), answered exchange house reply) := by
  have htype : data.field "type" = some (text "purchase_item") :=
    hsame.field_text (by simp [TestClient.purchaseRequest, Json.field, text])
  have hid : (data.field "auction_id").bind Json.getUInt64 = some auctionId := by
    rw [hsame.bind_field Json.Same.getUInt64]
    simp [TestClient.purchaseRequest, Json.field, Json.getUInt64, Json.numeric,
      ofInt_toNat_uint64]
  rcases hcall : exchange.house.purchaseItem o.purchase o.now auctionId loginUser
    with ⟨result, house⟩
  simp only [ClientCall.answer, hcall, Option.map_some]
  rw [ClientSession.processMessage_auction true hparse htype, if_pos hauth]
  refine ClientSession.handle_handleAuction (utf8Valid_literal (by simp))
    (utf8Valid_literal (by simp)) hid ?_
  rw [huser]
  simp only [circumstances, Server.calls, hcall]

/-- Any request over the wire. -/
theorem processMessage_request (hparse : JsonText.parse message = .ok data)
    (hsame : (call.request client).Same data)
    (hadmits : exchange.session.Admits call) :
    processMessage (circumstances o) message exchange =
      (call.answer o exchange.house).map fun (reply, house) =>
        (.ok (), answered ⟨call.after exchange.session, exchange.house⟩ house
          reply) := by
  cases call with
  | login username password =>
      rw [processMessage_loginRequest hparse hsame]
      simp only [ClientCall.answer, Option.map_some, ClientCall.after]
      split <;> rfl
  | registerItem itemId itemName price =>
      obtain ⟨hauth, huser⟩ := hadmits rfl
      exact processMessage_registerRequest hparse hsame hauth huser
  | searchItems keyword => exact processMessage_searchRequest hparse hsame
  | purchaseItem auctionId =>
      obtain ⟨hauth, huser⟩ := hadmits rfl
      exact processMessage_purchaseRequest hparse hsame hauth huser

/-! ## One request and its answer -/

/-- The session with nothing to write. -/
def ClientSession.Idle (session : ClientSession) : Prop :=
  session.writer = Writer.initial

omit [JsonText] [StdSort] in
theorem ClientSession.Idle.after {session : ClientSession} (h : session.Idle)
    (call : ClientCall) : (call.after session).Idle := by
  rw [ClientCall.after]
  split
  · exact h
  · exact h

/-- A session with nothing to write writes the reply, and has nothing to write
again. -/
theorem serve_request (hparse : JsonText.parse message = .ok data)
    (hsame : (call.request client).Same data)
    (hadmits : exchange.session.Admits call) (hidle : exchange.session.Idle) :
    TestClient.serve (circumstances o) message exchange =
      (call.answer o exchange.house).map fun (reply, house) =>
        (Protocol.framing.frame (JsonText.text reply),
          ⟨call.after exchange.session, house⟩) := by
  rw [TestClient.serve, Exchange.step,
    processMessage_request hparse hsame hadmits]
  cases call.answer o exchange.house with
  | none => rfl
  | some answer =>
      obtain ⟨reply, house⟩ := answer
      have hwriter : (call.after exchange.session).writer = Writer.initial :=
        hidle.after call
      generalize call.after exchange.session = session at hwriter ⊢
      obtain ⟨userId, authenticated, writer⟩ := session
      subst hwriter
      rfl

variable {passage : Passage} {talk : Talk Server} {request : Bytes}

/-- What the client makes of an answer. -/
def TestClient.accepted (accept : Json → TestClient.Action Server Bool)
    (data : Json) : TestClient.Action Server Bool :=
  handle (accept data) fun _ => pure false

/-- The client and the session after a request that arrived. -/
def Talk.served (talk : Talk Server) (call : ClientCall) (house : Server) :
    Talk Server :=
  { talk with exchange := ⟨call.after talk.exchange.session, house⟩ }

/-- A request that a session does not accept is lost. -/
def Passage.of (passage : Passage) (request : Bytes) : Passage :=
  if Protocol.framing.limit < request.length then .unsent else passage

omit [StdSort] in
/-- A request that does not arrive. -/
theorem sendRequest_unsent {σ : Type} {c : Circumstances σ}
    {talk : Talk σ} (hrequest : request.length < 2 ^ 32)
    (hunsent : passage.of request = .unsent) :
    TestClient.sendRequest c passage request talk =
      some (.ok none, TestClient.disconnect talk) := by
  rw [TestClient.sendRequest]
  rw [Passage.of] at hunsent
  split_ifs at hunsent with hlong
  · have hannounced : Protocol.framing.limit <
        Protocol.framing.decode (Protocol.headerOf request.length) := by
      have hsize : Protocol.framing.decode
          (Protocol.headerOf request.length) = request.length :=
        TestClient.sizeOf_headerOf request.length (Nat.le_sub_one_of_lt hrequest)
      rwa [hsize]
    have hread : (Protocol.framing.read (TestClient.framing.frame request)).1 =
        [] :=
      congrArg Prod.fst (Framing.read_of_tooLong
        (Protocol.framing.length_encode request.length) hannounced)
    rw [hread]
    exact ite_self _
  · rw [if_pos hunsent]

omit [JsonText] [StdSort] in
/-- A request within the limit is what the session reads. -/
theorem read_request (hsent : passage.of request ≠ .unsent) :
    passage ≠ .unsent ∧
      (Protocol.framing.read (TestClient.framing.frame request)).1 =
        [request] := by
  rw [Passage.of] at hsent
  split_ifs at hsent with hlong
  · exact (hsent rfl).elim
  have hframe := @Framing.read_frame _ Protocol.framing request []
    (Nat.not_lt.mp hlong)
  rw [List.append_nil, Framing.read_nil] at hframe
  exact ⟨hsent, congrArg Prod.fst hframe⟩

/-- A request that arrives, and the answer that arrives or does not. -/
theorem sendRequest_served {reply : Json} {house : Server}
    (hsent : passage.of request ≠ .unsent)
    (hparse : JsonText.parse request = .ok data)
    (hsame : (call.request client).Same data)
    (hadmits : talk.exchange.session.Admits call)
    (hidle : talk.exchange.session.Idle)
    (hanswer : call.answer o talk.exchange.house = some (reply, house))
    (hshort : (JsonText.text reply).length < 2 ^ 32) :
    TestClient.sendRequest (circumstances o) passage request talk =
      if passage = .answered then
        some (.ok (some (JsonText.text reply)), talk.served call house)
      else some (.ok none, TestClient.disconnect (talk.served call house)) := by
  obtain ⟨hunsent, hread⟩ := read_request hsent
  have hframe : (TestClient.framing.read
      (Protocol.framing.frame (JsonText.text reply))).1 =
        [JsonText.text reply] := by
    have hframe := @Framing.read_frame _ TestClient.framing
      (JsonText.text reply) [] (Nat.le_sub_one_of_lt hshort)
    rw [List.append_nil, Framing.read_nil] at hframe
    exact congrArg Prod.fst hframe
  have hserve : TestClient.serve (circumstances o) request talk.exchange = _ :=
    serve_request hparse hsame hadmits hidle
  rw [hanswer, Option.map_some] at hserve
  rw [TestClient.sendRequest, if_neg hunsent, hread]
  simp only [hserve]
  by_cases hanswered : passage = .answered
  · simp only [if_pos hanswered, hframe]
    rfl
  · simp only [if_neg hanswered]
    rfl

theorem sendRequest_none (hsent : passage.of request ≠ .unsent)
    (hparse : JsonText.parse request = .ok data)
    (hsame : (call.request client).Same data)
    (hadmits : talk.exchange.session.Admits call)
    (hidle : talk.exchange.session.Idle)
    (hanswer : call.answer o talk.exchange.house = none) :
    TestClient.sendRequest (circumstances o) passage request talk = none := by
  obtain ⟨hunsent, hread⟩ := read_request hsent
  have hserve : TestClient.serve (circumstances o) request talk.exchange = _ :=
    serve_request hparse hsame hadmits hidle
  rw [hanswer, Option.map_none] at hserve
  rw [TestClient.sendRequest, if_neg hunsent, hread]
  simp only [hserve]

omit [StdSort] in
theorem ask_unsent {σ : Type} {c : Circumstances σ} {talk : Talk σ}
    {accept : Json → TestClient.Action σ Bool} {j : Json}
    (hdumps : j.dumps = true) (hshort : (JsonText.text j).length < 2 ^ 32)
    (hunsent : passage.of (JsonText.text j) = .unsent) :
    TestClient.ask c passage j accept talk =
      some (.ok false, TestClient.disconnect talk) := by
  have hsend := @sendRequest_unsent _ passage _ σ c talk hshort hunsent
  rw [TestClient.ask, if_pos hdumps, bind_of_ok hsend]
  rfl

/-- A request that arrives is answered, and the client is told or not. -/
theorem ask_served {accept : Json → TestClient.Action Server Bool}
    {reply : Json} {house : Server}
    (hdumps : (call.request client).dumps = true)
    (hlegible : JsonText.Legible (call.request client))
    (hsent : passage.of (JsonText.text (call.request client)) ≠ .unsent)
    (hadmits : talk.exchange.session.Admits call)
    (hidle : talk.exchange.session.Idle)
    (hanswer : call.answer o talk.exchange.house = some (reply, house))
    (hreply : JsonText.Legible reply) :
    ∃ data, reply.Same data ∧
      TestClient.ask (circumstances o) passage (call.request client) accept talk =
        if passage = .answered then
          TestClient.accepted accept data (talk.served call house)
        else some (.ok false, TestClient.disconnect (talk.served call house)) := by
  obtain ⟨-, data, hparse, hsame⟩ := hlegible hdumps
  obtain ⟨hshort, response, hresponse, hback⟩ :=
    hreply (call.answer_dumps hanswer)
  have hsend := sendRequest_served hsent hparse hsame hadmits hidle hanswer hshort
  refine ⟨response, hback, ?_⟩
  rw [TestClient.ask, if_pos hdumps]
  by_cases hanswered : passage = .answered
  · rw [if_pos hanswered] at hsend ⊢
    rw [bind_of_ok hsend]
    simp only [hresponse, ofExcept_ok_bind]
    rfl
  · rw [if_neg hanswered] at hsend ⊢
    rw [bind_of_ok hsend]
    rfl

/-- A call that has no end gives no answer. -/
theorem ask_none {accept : Json → TestClient.Action Server Bool}
    (hdumps : (call.request client).dumps = true)
    (hlegible : JsonText.Legible (call.request client))
    (hsent : passage.of (JsonText.text (call.request client)) ≠ .unsent)
    (hadmits : talk.exchange.session.Admits call)
    (hidle : talk.exchange.session.Idle)
    (hanswer : call.answer o talk.exchange.house = none) :
    TestClient.ask (circumstances o) passage (call.request client) accept talk =
      none := by
  obtain ⟨-, data, hparse, hsame⟩ := hlegible hdumps
  have hsend := sendRequest_none hsent hparse hsame hadmits hidle hanswer
  rw [TestClient.ask, if_pos hdumps, bind_of_none hsend]

end AuctionServer
