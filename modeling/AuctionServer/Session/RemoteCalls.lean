import AuctionServer.Session.Requests
import AuctionServer.Support.Refinement

/-!
# Calls over the wire

A client that asks over a connection fares like one that calls the server
itself, as long as the texts that are exchanged are read back: it is told the
same, it collects the same auctions, and the server has done the same.  A
request that is lost, or is longer than a session accepts, costs the client
its connection, and the server has done at most what was asked for.
-/

namespace AuctionServer

open Program
open ClientSession (text errorReply registerReply searchReply auctionReply
  searchResponse failureReply NamesDump itemFor loginUser decimal)
open Crowd (circumstances)

/-! ## A client in the same process -/

/-- A client that calls the server itself. -/
structure LocalClient where
  connected : Bool
  loggedIn : Bool
  auctionIds : List UInt64
  server : Server

namespace LocalClient

variable [StdSort]

/-- Make a call, for the user a login is for. -/
def make (o : MessageOutcomes) (client : LocalClient) :
    ClientCall → Option (Bool × LocalClient)
  | .login username password =>
      if (ClientCall.login username password).logsIn then
        some (true, { client with loggedIn := true })
      else some (false, client)
  | .registerItem itemId itemName price =>
      let (result, server) := client.server.registerItem o.register o.now
        loginUser (itemFor o.unset loginUser itemId itemName) price
      match result with
      | .ok auctionId => some (decide (0 < auctionId), { client with server })
      | .error _ => some (false, { client with server })
  | .searchItems keyword =>
      match client.server.searchItems o.search { keyword } with
      | none => none
      | some (.error _, server) => some (false, { client with server })
      | some (.ok items, server) =>
          if items.all fun item => utf8Valid item.item.name then
            some (true,
              { client with auctionIds := items.map AuctionItem.id, server })
          else some (false, { client with server })
  | .purchaseItem auctionId =>
      let (result, server) :=
        client.server.purchaseItem o.purchase o.now auctionId loginUser
      some (result, { client with server })

/-- What a call comes to.  One that is not answered is made, and the client
learns nothing of it. -/
def ask (o : MessageOutcomes) (client : LocalClient) (call : ClientCall) :
    Passage → Option (Bool × LocalClient)
  | .unsent => some (false, { client with connected := false })
  | .unanswered =>
      (client.make o call).map fun (_, after) =>
        (false, { client with connected := false, server := after.server })
  | .answered => client.make o call

/-- One step of a client in the same process. -/
def step (client : LocalClient) : TalkInput → Option (TalkOutput × LocalClient)
  | .ask call o passage =>
      if !client.connected || call.needsLogin && !client.loggedIn then
        some (.returned (.ok false), client)
      else if !call.writable then some (.returned (.error .other), client)
      else
        (client.ask o call passage).map fun (result, after) =>
          (.returned (.ok result), after)
  | .elsewhere call =>
      if call.isRestart then none
      else
        (Server.machine.step client.server call).map fun (reply, server) =>
          (.elsewhere reply, { client with server })

/-- A client in the same process as a machine. -/
def machine : Machine LocalClient TalkInput TalkOutput where
  step := step

end LocalClient

variable {data : Json} {talk : Talk Server} {call : ClientCall}

/-! ## What the client makes of the answers -/

namespace TestClient

variable {reply : Json}

theorem succeeded_of_same (h : reply.Same data) :
    succeeded data = succeeded reply := by
  rw [succeeded, h.bind_field Json.Same.getString, succeeded]

theorem succeeded_errorReply (message : Bytes) :
    succeeded (errorReply message) = false := by
  have hne : literal "error" ≠ literal "success" := by simp [literal]
  simp [succeeded, errorReply, Json.field, text, Json.getString, hne]

theorem succeeded_failureReply (e : MessageException) :
    succeeded (failureReply e) = false := by
  cases e with
  | parseError => exact succeeded_errorReply _
  | other => exact succeeded_errorReply _

theorem succeeded_registerReply (result : Except StoreException UInt64) :
    succeeded (registerReply (Server.seen result)) =
      match result with
      | .ok auctionId => decide (0 < auctionId)
      | .error _ => false := by
  cases result with
  | error e => exact succeeded_failureReply .other
  | ok auctionId =>
      simp only [Server.seen, Except.mapError, registerReply]
      split_ifs with hpos
      · simp [succeeded, Json.field, text, Json.getString, hpos]
      · simp [succeeded_errorReply, hpos]

theorem succeeded_auctionReply (success failure : String) (result : Bool) :
    succeeded (auctionReply success failure (.ok result)) = result := by
  cases result with
  | false => exact succeeded_errorReply _
  | true => simp [succeeded, auctionReply, Json.field, text, Json.getString]

theorem succeeded_searchReply (criteria : SearchCriteria)
    (result : Except StoreException (List AuctionItem)) :
    succeeded (searchReply criteria (Server.seen result)) =
      match result with
      | .ok items => items.all fun item => utf8Valid item.item.name
      | .error _ => false := by
  cases result with
  | error e => exact succeeded_failureReply .other
  | ok items =>
      simp only [Server.seen, Except.mapError]
      by_cases hnames : NamesDump items
      · rw [ClientSession.searchReply_of_dumps hnames]
        have hall : (items.all fun item => utf8Valid item.item.name) = true :=
          List.all_eq_true.mpr hnames
        simp [succeeded, searchResponse, Json.field, text, Json.getString, hall]
      · rw [ClientSession.searchReply_of_not_dumps hnames,
          succeeded_failureReply]
        have hall : (items.all fun item => utf8Valid item.item.name) ≠ true :=
          fun hall => hnames (List.all_eq_true.mp hall)
        simpa using hall

/-- An item of a response, with its members in any order, is collected. -/
theorem collect_itemJson {σ : Type} {talk : Talk σ} {item : AuctionItem}
    {j : Json} (h : (ClientSession.itemJson item).Same j) :
    collect j talk = some (.ok (),
      { talk with auctionIds := talk.auctionIds ++ [item.id] }) := by
  have hid : (j.field "auction_id").bind Json.getUInt64 = some item.id := by
    rw [h.bind_field Json.Same.getUInt64]
    simp [ClientSession.itemJson, Json.field, Json.getUInt64, Json.numeric,
      ofInt_toNat_uint64]
  obtain ⟨value, hvalue, hget⟩ := Option.bind_eq_some_iff.mp hid
  cases j with
  | object fields => simp only [collect, hvalue, Option.bind_some, hget]
  | _ => simp only [collect, hvalue, Option.bind_some, hget]

theorem collectAll_itemJson {σ : Type} {talk : Talk σ} {items : List AuctionItem}
    {elems : List Json}
    (h : List.Forall₂ Json.Same (items.map ClientSession.itemJson) elems) :
    collectAll elems talk = some (.ok (),
      { talk with auctionIds := talk.auctionIds ++ items.map AuctionItem.id }) := by
  induction items generalizing elems talk with
  | nil =>
      cases h
      simp [collectAll, pure]
  | cons item items ih =>
      rw [List.map_cons, List.forall₂_cons_left_iff] at h
      obtain ⟨j, elems, hitem, hitems, rfl⟩ := h
      rw [collectAll, bind_of_ok (collect_itemJson hitem), ih hitems]
      simp

theorem Same.elements {elems : List Json} {j : Json}
    (h : (Json.array elems).Same j) :
    ∃ elems', j = .array elems' ∧ List.Forall₂ Json.Same elems elems' := by
  cases h with
  | refl => exact ⟨elems, rfl, List.forall₂_same.mpr fun j _ => .refl j⟩
  | array h => exact ⟨_, rfl, h⟩

/-- From the response to a search the client collects what was found. -/
theorem accepted_searchResponse {criteria : SearchCriteria}
    {items : List AuctionItem}
    (hsame : (searchResponse criteria items).Same data) :
    accepted acceptItems data talk =
      some (.ok true, { talk with auctionIds := items.map AuctionItem.id }) := by
  have hsucceeded : succeeded data = true := by
    rw [succeeded_of_same hsame]
    simp [succeeded, searchResponse, Json.field, text, Json.getString]
  have hrel := hsame.field "items"
  have hitems : (searchResponse criteria items).field "items" =
      some (.array (items.map ClientSession.itemJson)) := by
    simp [searchResponse, Json.field]
  rw [hitems] at hrel
  cases hfield : data.field "items" with
  | none =>
      rw [hfield] at hrel
      cases hrel
  | some j =>
      rw [hfield, Option.rel_some_some] at hrel
      obtain ⟨elems, rfl, helems⟩ := Same.elements hrel
      have hrun : acceptItems data talk =
          some (.ok true, { talk with auctionIds := items.map AuctionItem.id }) := by
        rw [acceptItems, if_pos hsucceeded, change_bind, visited, hfield]
        simp only
        rw [bind_of_ok (collectAll_itemJson helems)]
        rfl
      exact handle_eq_some.mpr (Or.inl ⟨true, hrun, rfl⟩)

/-- The client after an accepted login. -/
def loggedIn (now : Time) (talk : Talk Server) : Talk Server :=
  { talk with
    client :=
      { talk.client with
        userId := loginUser
        sessionToken := literal "session_" ++ decimal loginUser.toNat ++
          literal "_" ++ decimal now.toInt } }

/-- From the response to a login the client takes its user and its token. -/
theorem accepted_loginReply {now : Time} (hsame : (loginReply now).Same data) :
    accepted acceptLogin data talk = some (.ok true, loggedIn now talk) := by
  have hsucceeded : succeeded data = true := by
    rw [succeeded_of_same hsame]
    simp [succeeded, loginReply, Json.field, text, Json.getString]
  have huser : (data.field "user_id").bind Json.getUInt32 = some loginUser := by
    rw [hsame.bind_field Json.Same.getUInt32]
    simp [loginReply, Json.field, Json.getUInt32, Json.numeric,
      ofInt_toNat_uint32]
  have htoken : (data.field "session_token").bind Json.getString =
      some (literal "session_" ++ decimal loginUser.toNat ++ literal "_" ++
        decimal now.toInt) := by
    rw [hsame.bind_field Json.Same.getString]
    simp [loginReply, Json.field, Json.getString]
  have hrun : acceptLogin data talk = some (.ok true, loggedIn now talk) := by
    rw [acceptLogin, if_pos hsucceeded, member, huser]
    simp only [ofExcept_ok_bind]
    rw [change_bind, member, htoken]
    rfl
  exact handle_eq_some.mpr (Or.inl ⟨true, hrun, rfl⟩)

end TestClient

/-- What the client makes of the response to a call. -/
def ClientCall.accept : ClientCall → Json → TestClient.Action Server Bool
  | .login _ _ => TestClient.acceptLogin
  | .registerItem _ _ _ => TestClient.acceptStatus
  | .searchItems _ => TestClient.acceptItems
  | .purchaseItem _ => TestClient.acceptStatus

theorem TestClient.accepted_acceptStatus :
    TestClient.accepted acceptStatus data talk =
      some (.ok (succeeded data), talk) := rfl

/-- A response that reports no success changes nothing. -/
theorem TestClient.accepted_of_not_succeeded
    (h : TestClient.succeeded data = false) :
    TestClient.accepted call.accept data talk = some (.ok false, talk) := by
  have hrun : call.accept data talk = some (.ok false, talk) := by
    cases call with
    | login username password =>
        simp [ClientCall.accept, acceptLogin, h, pure]
    | registerItem itemId itemName price =>
        simp [ClientCall.accept, acceptStatus, h, pure]
    | searchItems keyword => simp [ClientCall.accept, acceptItems, h, pure]
    | purchaseItem auctionId =>
        simp [ClientCall.accept, acceptStatus, h, pure]
  exact handle_eq_some.mpr (Or.inl ⟨false, hrun, rfl⟩)

/-! ## A client over the wire and a client in the process -/

namespace Talk

/-- What a client over the wire is to a client in the process. -/
def view (talk : Talk Server) : LocalClient where
  connected := talk.client.connected
  loggedIn := talk.client.userId ≠ 0
  auctionIds := talk.auctionIds
  server := talk.exchange.house

/-- As long as the connection stands, the session has nothing to write, and is
logged in if the client believes so. -/
structure Attuned (talk : Talk Server) : Prop where
  token : utf8Valid talk.client.sessionToken = true
  idle : talk.client.connected = true → talk.exchange.session.Idle
  admits : talk.client.connected = true → talk.client.userId ≠ 0 →
    talk.exchange.session.authenticated = true ∧
      talk.exchange.session.userId = loginUser

theorem attuned_start (s : Server) : (start s).Attuned where
  token := rfl
  idle _ := rfl
  admits _ hne := (hne rfl).elim

theorem Attuned.served (h : talk.Attuned) (call : ClientCall) (house : Server) :
    (talk.served call house).Attuned where
  token := h.token
  idle hconnected := (h.idle hconnected).after call
  admits hconnected huser := by
    obtain ⟨hauth, hid⟩ := h.admits hconnected huser
    change (call.after talk.exchange.session).authenticated = true ∧
      (call.after talk.exchange.session).userId = loginUser
    rw [ClientCall.after]
    split
    · exact ⟨rfl, rfl⟩
    · exact ⟨hauth, hid⟩

theorem Attuned.disconnect (h : talk.Attuned) :
    (TestClient.disconnect talk).Attuned where
  token := h.token
  idle hconnected := by cases hconnected
  admits hconnected := by cases hconnected

theorem Attuned.loggedIn (h : talk.Attuned) {username password : Bytes}
    (hright : (ClientCall.login username password).logsIn = true) (house : Server)
    (now : Time) :
    (TestClient.loggedIn now
      (talk.served (.login username password) house)).Attuned where
  token := by
    have hdumps := loginReply_dumps now
    simpa [loginReply, Json.dumps, Json.fieldsDump, text,
      ClientSession.utf8Valid_success, TestClient.loggedIn] using hdumps
  idle hconnected := (h.idle hconnected).after _
  admits _ _ := by
    change (ClientCall.after _ talk.exchange.session).authenticated = true ∧
      (ClientCall.after _ talk.exchange.session).userId = loginUser
    rw [ClientCall.after, if_pos hright]
    exact ⟨rfl, rfl⟩

variable [StdSort] {o : MessageOutcomes}

/-- The client is told what it would have been told in the process. -/
theorem Attuned.told (h : talk.Attuned) {reply : Json} {house : Server}
    (hanswer : call.answer o talk.exchange.house = some (reply, house))
    (hsame : reply.Same data) :
    ∃ b t, TestClient.accepted call.accept data (talk.served call house) =
        some (.ok b, t) ∧
      talk.view.make o call = some (b, t.view) ∧ t.Attuned := by
  have hrefused (hfalse : TestClient.succeeded reply = false) :
      TestClient.accepted call.accept data (talk.served call house) =
        some (.ok false, talk.served call house) :=
    TestClient.accepted_of_not_succeeded
      ((TestClient.succeeded_of_same hsame).trans hfalse)
  cases call with
  | login username password =>
      simp only [ClientCall.answer, Option.some.injEq, Prod.mk.injEq] at hanswer
      obtain ⟨rfl, rfl⟩ := hanswer
      by_cases hright : (ClientCall.login username password).logsIn = true
      · rw [if_pos hright] at hsame
        refine ⟨true, _, TestClient.accepted_loginReply hsame, ?_,
          h.loggedIn hright _ _⟩
        rw [LocalClient.make, if_pos hright]
        rfl
      · rw [if_neg hright] at hrefused
        refine ⟨false, _, hrefused (TestClient.succeeded_errorReply _), ?_,
          h.served _ _⟩
        rw [LocalClient.make, if_neg hright]
        rfl
  | registerItem itemId itemName price =>
      rcases hcall : talk.exchange.house.registerItem o.register o.now loginUser
        (itemFor o.unset loginUser itemId itemName) price with ⟨result, server⟩
      simp only [ClientCall.answer, hcall, Option.some.injEq,
        Prod.mk.injEq] at hanswer
      obtain ⟨rfl, rfl⟩ := hanswer
      refine ⟨_, _, TestClient.accepted_acceptStatus, ?_, h.served _ _⟩
      rw [TestClient.succeeded_of_same hsame, TestClient.succeeded_registerReply]
      have hmake : talk.view.server.registerItem o.register o.now loginUser
          (itemFor o.unset loginUser itemId itemName) price =
            (result, server) := hcall
      simp only [LocalClient.make, hmake]
      cases result with
      | ok auctionId => rfl
      | error e => rfl
  | searchItems keyword =>
      obtain ⟨⟨result, server⟩, hcall, heq⟩ := Option.map_eq_some_iff.mp hanswer
      simp only [Prod.mk.injEq] at heq
      obtain ⟨rfl, rfl⟩ := heq
      have hmake : talk.view.server.searchItems o.search { keyword } =
          some (result, server) := hcall
      have hsucceeded := TestClient.succeeded_searchReply { keyword } result
      cases result with
      | error e =>
          refine ⟨false, _, hrefused hsucceeded, ?_, h.served _ _⟩
          rw [LocalClient.make, hmake]
          rfl
      | ok items =>
          by_cases hnames : NamesDump items
          · rw [show Server.seen (.ok items) = .ok items from rfl,
              ClientSession.searchReply_of_dumps hnames] at hsame
            have hserved := h.served (.searchItems keyword) server
            refine ⟨true, _, TestClient.accepted_searchResponse hsame, ?_,
              hserved.token, hserved.idle, hserved.admits⟩
            rw [LocalClient.make, hmake]
            exact if_pos (List.all_eq_true.mpr hnames)
          · have hall : (items.all fun item => utf8Valid item.item.name) = false :=
              Bool.eq_false_iff.mpr fun hall => hnames (List.all_eq_true.mp hall)
            refine ⟨false, _, hrefused (hsucceeded.trans hall), ?_, h.served _ _⟩
            rw [LocalClient.make, hmake]
            exact if_neg (by simp [hall])
  | purchaseItem auctionId =>
      rcases hcall : talk.exchange.house.purchaseItem o.purchase o.now auctionId
        loginUser with ⟨result, server⟩
      simp only [ClientCall.answer, hcall, Option.some.injEq,
        Prod.mk.injEq] at hanswer
      obtain ⟨rfl, rfl⟩ := hanswer
      refine ⟨_, _, TestClient.accepted_acceptStatus, ?_, h.served _ _⟩
      rw [TestClient.succeeded_of_same hsame, TestClient.succeeded_auctionReply]
      have hmake : talk.view.server.purchaseItem o.purchase o.now auctionId
          loginUser = (result, server) := hcall
      simp only [LocalClient.make, hmake]
      rfl

/-! ## One step -/

variable [JsonText] {passage : Passage} {request : Bytes}

/-- The functions of a client are requests, or they end at once. -/
theorem run_eq (call : ClientCall) :
    call.run (circumstances o) passage talk =
      if (!talk.client.connected ||
          call.needsLogin && !talk.view.loggedIn) = true then
        some (.ok false, talk)
      else
        TestClient.ask (circumstances o) passage (call.request talk.client)
          call.accept talk := by
  have hloggedIn : (!talk.view.loggedIn) = decide (talk.client.userId = 0) := by
    simp [view]
  rw [hloggedIn]
  cases call with
  | login username password =>
      rw [ClientCall.run, TestClient.login, look_bind]
      simp only [ClientCall.needsLogin, Bool.false_and, Bool.or_false]
      split <;> rfl
  | registerItem itemId itemName price =>
      rw [ClientCall.run, TestClient.registerItem, look_bind]
      simp only [ClientCall.needsLogin, Bool.true_and]
      split <;> rfl
  | searchItems keyword =>
      rw [ClientCall.run, TestClient.searchItems, look_bind]
      simp only [ClientCall.needsLogin, Bool.false_and, Bool.or_false]
      split <;> rfl
  | purchaseItem auctionId =>
      rw [ClientCall.run, TestClient.purchaseItem, look_bind]
      simp only [ClientCall.needsLogin, Bool.true_and]
      split <;> rfl

omit [JsonText] in
/-- Whether it learns of it or not, a client in the process leaves the server
as a session does. -/
theorem make_server (client : LocalClient) :
    (client.make o call).map (fun r => r.2.server) =
      (call.answer o client.server).map Prod.snd := by
  cases call with
  | login username password =>
      rw [LocalClient.make, ClientCall.answer]
      split <;> rfl
  | registerItem itemId itemName price =>
      rcases hcall : client.server.registerItem o.register o.now loginUser
        (itemFor o.unset loginUser itemId itemName) price with ⟨result, server⟩
      simp only [LocalClient.make, ClientCall.answer, hcall]
      cases result <;> rfl
  | searchItems keyword =>
      rw [LocalClient.make, ClientCall.answer]
      rcases client.server.searchItems o.search { keyword } with
        _ | ⟨_ | items, server⟩
      · rfl
      · rfl
      · simp only [Option.map_some]
        split <;> rfl
  | purchaseItem auctionId =>
      rcases hcall : client.server.purchaseItem o.purchase o.now auctionId
        loginUser with ⟨result, server⟩
      simp only [LocalClient.make, ClientCall.answer, hcall, Option.map_some]

omit [StdSort] [JsonText] in
theorem of_eq_of_ne (h : passage.of request ≠ .unsent) :
    passage.of request = passage := by
  rw [Passage.of] at h ⊢
  split_ifs at h ⊢ with hlong
  · exact (h rfl).elim
  · rfl

/-- As long as the connection stands, the request and the answer are read
back. -/
def Legible (talk : Talk Server) : TalkInput → Prop
  | .ask call o _ => talk.client.connected = true →
      JsonText.Legible (call.request talk.client) ∧
        ∀ reply house, call.answer o talk.exchange.house = some (reply, house) →
          JsonText.Legible reply
  | .elsewhere _ => True

/-- A result, and the state it leaves, as a client in the process has them. -/
def Mirrors (r : Option (Except MessageException Bool × Talk Server))
    (l : Option (Bool × LocalClient)) : Prop :=
  (r = none ∧ l = none) ∨
    ∃ b t, r = some (.ok b, t) ∧ l = some (b, t.view) ∧ t.Attuned

/-- A request comes to what the call comes to in the process. -/
theorem Attuned.asked (h : talk.Attuned) (hconnected : talk.client.connected = true)
    (hlogin : call.needsLogin = true → talk.client.userId ≠ 0)
    (hwritable : call.writable = true)
    (hlegible : talk.Legible (.ask call o passage)) :
    Mirrors
      (TestClient.ask (circumstances o) passage (call.request talk.client)
        call.accept talk)
      (talk.view.ask o call
        (passage.of (JsonText.text (call.request talk.client)))) := by
  obtain ⟨hrequest, hreplies⟩ := hlegible hconnected
  have hdumps : (call.request talk.client).dumps = true := by
    rw [ClientCall.request_dumps h.token, hwritable]
  by_cases hsent : passage.of (JsonText.text (call.request talk.client)) = .unsent
  · right
    rw [hsent]
    exact ⟨false, _, ask_unsent hdumps (hrequest hdumps).1 hsent, rfl,
      h.disconnect⟩
  have hadmits : talk.exchange.session.Admits call := fun hneeds =>
    h.admits hconnected (hlogin hneeds)
  have hidle := h.idle hconnected
  have hserver : (talk.view.make o call).map (fun r => r.2.server) =
      (call.answer o talk.exchange.house).map Prod.snd := make_server talk.view
  have hpassage := of_eq_of_ne hsent
  cases hanswer : call.answer o talk.exchange.house with
  | none =>
      left
      refine ⟨ask_none hdumps hrequest hsent hadmits hidle hanswer, ?_⟩
      rw [hanswer, Option.map_none, Option.map_eq_none_iff] at hserver
      rw [hpassage] at hsent ⊢
      cases passage with
      | unsent => exact (hsent rfl).elim
      | unanswered => rw [LocalClient.ask, hserver, Option.map_none]
      | answered => exact hserver
  | some answer =>
      right
      obtain ⟨reply, house⟩ := answer
      obtain ⟨data, hsame, hask⟩ := ask_served hdumps hrequest hsent hadmits hidle
        hanswer (hreplies reply house hanswer)
      rw [hask]
      rw [hpassage] at hsent ⊢
      cases passage with
      | unsent => exact (hsent rfl).elim
      | unanswered =>
          rw [hanswer, Option.map_some] at hserver
          obtain ⟨⟨b, after⟩, hmake, hafter⟩ :=
            Option.map_eq_some_iff.mp hserver
          obtain rfl : after.server = house := hafter
          refine ⟨false, _, rfl, ?_, (h.served call _).disconnect⟩
          rw [LocalClient.ask, hmake]
          rfl
      | answered => exact h.told hanswer hsame

/-- What the client asks, and what becomes of a request of this length. -/
def heard (talk : Talk Server) : TalkInput → TalkInput
  | .ask call o passage =>
      .ask call o (passage.of (JsonText.text (call.request talk.client)))
  | .elsewhere call => .elsewhere call

/-- A step over the wire is a step in the process, and the other way round. -/
theorem Attuned.step (h : talk.Attuned) {input : TalkInput}
    (hlegible : talk.Legible input) :
    (talk.step input).map (fun r => (r.1, r.2.view)) =
        talk.view.step (talk.heard input) ∧
      ∀ out t, talk.step input = some (out, t) → t.Attuned := by
  cases input with
  | elsewhere call =>
      rw [Talk.step, heard, LocalClient.step]
      have hview : talk.view.server = talk.exchange.house := rfl
      rw [hview]
      split_ifs with hrestart
      · exact ⟨rfl, fun out t ht => by cases ht⟩
      · cases Server.machine.step talk.exchange.house call with
        | none => exact ⟨rfl, fun out t ht => by cases ht⟩
        | some r =>
            refine ⟨rfl, fun out t ht => ?_⟩
            obtain ⟨-, rfl⟩ := Prod.mk.inj (Option.some.inj ht)
            exact ⟨h.token, h.idle, h.admits⟩
  | ask call o passage =>
      rw [Talk.step, run_eq, heard, LocalClient.step]
      have hconnected : talk.view.connected = talk.client.connected := rfl
      rw [hconnected]
      split_ifs with hoff hwritable
      · refine ⟨rfl, fun out t ht => ?_⟩
        obtain ⟨-, rfl⟩ := Prod.mk.inj (Option.some.inj ht)
        exact h
      · have hdumps : ¬ (call.request talk.client).dumps = true := by
          rw [ClientCall.request_dumps h.token]
          simpa using hwritable
        rw [TestClient.ask, if_neg hdumps]
        refine ⟨rfl, fun out t ht => ?_⟩
        obtain ⟨-, rfl⟩ := Prod.mk.inj (Option.some.inj ht)
        exact h
      · simp only [Bool.or_eq_true, Bool.and_eq_true, not_or, not_and,
          Bool.not_eq_true', Bool.not_eq_false] at hoff hwritable
        obtain ⟨hon, hneeds⟩ := hoff
        have hlogin : call.needsLogin = true → talk.client.userId ≠ 0 :=
          fun hcall => of_decide_eq_true (hneeds hcall)
        rcases h.asked hon hlogin hwritable hlegible with
          ⟨hnone, hlocal⟩ | ⟨b, t, hsome, hlocal, ht⟩
        · rw [hnone, hlocal]
          exact ⟨rfl, fun out t ht => by cases ht⟩
        · rw [hsome, hlocal]
          refine ⟨rfl, fun out t' ht' => ?_⟩
          obtain ⟨-, rfl⟩ := Prod.mk.inj (Option.some.inj ht')
          exact ht

/-- A step that can be made in the process can be made over the wire. -/
theorem Attuned.exists_step (h : talk.Attuned) {input : TalkInput}
    (hlegible : talk.Legible input)
    (hlocal : (talk.view.step (talk.heard input)).isSome = true) :
    ∃ out t, machine.step talk input = some (out, t) ∧ t.Attuned ∧
      talk.view.step (talk.heard input) = some (out, t.view) := by
  obtain ⟨hmirror, hattuned⟩ := h.step hlegible
  obtain ⟨⟨out, l⟩, hstep⟩ := Option.isSome_iff_exists.mp hlocal
  rw [hstep] at hmirror ⊢
  obtain ⟨⟨out, t⟩, ht, heq⟩ := Option.map_eq_some_iff.mp hmirror
  obtain ⟨rfl, rfl⟩ := Prod.mk.inj heq
  exact ⟨_, t, ht, hattuned _ t ht, rfl⟩

end Talk

/-! ## A conversation -/

/-- The text of a value without nested objects and without characters that are
escaped. -/
def Json.flatText : Json → Bytes
  | .string s => literal "\"" ++ s ++ literal "\""
  | .integer n => decimal n
  | .array _ => literal "[]"
  | .object fields =>
      let members := (fields.insertionSort fun f g => f.1 ≤ g.1).map fun f =>
        literal ("\"" ++ f.1 ++ "\":") ++
          match f.2 with
          | .string s => literal "\"" ++ s ++ literal "\""
          | .integer n => decimal n
          | .array _ => literal "[]"
          | _ => literal "null"
      literal "\x7b" ++ (literal ",").intercalate members ++ literal "\x7d"
  | _ => literal "null"

namespace Talk

/-- A login and its answer, and a search that finds nothing and its answer. -/
def conversation : List Json :=
  [TestClient.loginRequest (literal "user123") (literal "password123"),
    loginReply 0, TestClient.searchRequest (literal "Item"),
    searchReply { keyword := literal "Item" } (.ok [])]

/-- A parser that knows these, and takes every other text for malformed. -/
@[reducible] def conversing : JsonText where
  parse message :=
    (Collection.findOne Json.flatText message conversation).elim
      (.error .parseError) .ok
  text := Json.flatText

theorem lengths_conversation :
    (conversation.map Json.flatText).map List.length = [62, 68, 40, 76] := by
  decide +kernel

theorem length_conversation {j : Json} (hj : j ∈ conversation) :
    j.flatText.length ≤ 76 := by
  have hlength : j.flatText.length ∈ [62, 68, 40, 76] := by
    rw [← lengths_conversation]
    exact List.mem_map_of_mem (List.mem_map_of_mem hj)
  simp only [List.mem_cons, List.not_mem_nil, or_false] at hlength
  omega

/-- No request of the conversation is too long. -/
theorem of_conversation {j : Json} (hj : j ∈ conversation) (passage : Passage) :
    passage.of j.flatText = passage := by
  have hlength := length_conversation hj
  have hlimit : 76 ≤ Protocol.framing.limit := by decide
  rw [Passage.of, if_neg (by omega)]

theorem legible_conversation {j : Json} (hj : j ∈ conversation) :
    @JsonText.Legible conversing j := by
  have hlength := length_conversation hj
  have hnodup : (conversation.map Json.flatText).Nodup := by
    apply List.Nodup.of_map List.length
    rw [lengths_conversation]
    decide
  have hfind : Collection.findOne Json.flatText j.flatText conversation =
      some j := (Collection.findOne_eq_some_iff hnodup).mpr ⟨hj, rfl⟩
  intro _
  have hparse : (Collection.findOne Json.flatText j.flatText conversation).elim
      (Except.error MessageException.parseError) Except.ok = .ok j := by
    rw [hfind]
    rfl
  exact ⟨lt_of_le_of_lt hlength (by norm_num), j, hparse, .refl j⟩

/-- The right name and password. -/
def rightLogin : ClientCall :=
  .login (literal "user123") (literal "password123")

theorem logsIn_rightLogin : rightLogin.logsIn = true := by
  simp [rightLogin, ClientCall.logsIn]

/-- A house that was never used. -/
def freshHouse : Server :=
  ⟨AuctionHouse.initial, Server.market⟩

/-- What a message meets at the start of the clock. -/
def outcomesAtZero : MessageOutcomes :=
  { (default : MessageOutcomes) with now := 0 }

/-- A login, and a search whose answer is lost. -/
def loginThenSearch : List TalkInput :=
  [.ask rightLogin outcomesAtZero .answered,
    .ask (.searchItems (literal "Item")) outcomesAtZero .unanswered]

theorem step_rightLogin (o : MessageOutcomes) :
    @LocalClient.step StdSort.insertion (start freshHouse).view
        (.ask rightLogin o .answered) =
      some (.returned (.ok true), ⟨true, true, [], freshHouse⟩) := by
  let _ : StdSort := StdSort.insertion
  have hname : utf8Valid (literal "user123") = true :=
    utf8Valid_literal (by simp)
  have hpassword : utf8Valid (literal "password123") = true :=
    utf8Valid_literal (by simp)
  have hwritable : rightLogin.writable = true := by
    simp only [rightLogin, ClientCall.writable, hname, hpassword, Bool.and_self]
  have hlogin : (ClientCall.login (literal "user123")
    (literal "password123")).logsIn = true := logsIn_rightLogin
  have hmake : (start freshHouse).view.make o rightLogin =
      some (true, ⟨true, true, [], freshHouse⟩) := by
    rw [rightLogin, LocalClient.make, if_pos hlogin]
    rfl
  have hready : ¬ ((!(start freshHouse).view.connected ||
      rightLogin.needsLogin && !(start freshHouse).view.loggedIn) = true) := by
    simp [rightLogin, ClientCall.needsLogin, start, view, TestClient.initial]
  rw [LocalClient.step, if_neg hready, hwritable, LocalClient.ask, hmake]
  rfl

theorem legible_rightLogin :
    @Legible StdSort.insertion conversing (start freshHouse)
      (.ask rightLogin outcomesAtZero .answered) := by
  let _ : StdSort := StdSort.insertion
  intro _
  refine ⟨legible_conversation List.mem_cons_self, ?_⟩
  intro reply house hanswer
  have hlogin : (ClientCall.login (literal "user123")
    (literal "password123")).logsIn = true := logsIn_rightLogin
  rw [rightLogin, ClientCall.answer, if_pos hlogin] at hanswer
  obtain ⟨rfl, -⟩ := Prod.mk.inj (Option.some.inj hanswer)
  exact legible_conversation (List.mem_cons_of_mem _ List.mem_cons_self)

/-- Nothing is found in it. -/
theorem searchItems_freshHouse :
    ∃ house, @Server.searchItems StdSort.insertion freshHouse
      outcomesAtZero.search { keyword := literal "Item" } =
        some (.ok [], house) := by
  have hnone : (@Server.searchItems StdSort.insertion freshHouse
      outcomesAtZero.search { keyword := literal "Item" }).map Prod.fst =
        some (.ok []) := by decide
  obtain ⟨⟨result, house⟩, hfound, rfl⟩ := Option.map_eq_some_iff.mp hnone
  exact ⟨house, hfound⟩

theorem legible_search {t : Talk Server} (hhouse : t.exchange.house = freshHouse) :
    @Legible StdSort.insertion conversing t
      (.ask (.searchItems (literal "Item")) outcomesAtZero .unanswered) := by
  let _ : StdSort := StdSort.insertion
  intro _
  refine ⟨legible_conversation
    (List.mem_cons_of_mem _ (List.mem_cons_of_mem _ List.mem_cons_self)), ?_⟩
  intro reply house hanswer
  obtain ⟨found, hfound⟩ := searchItems_freshHouse
  rw [hhouse, ClientCall.answer, hfound] at hanswer
  obtain ⟨rfl, -⟩ := Prod.mk.inj (Option.some.inj hanswer)
  exact legible_conversation (List.mem_cons_of_mem _ (List.mem_cons_of_mem _
    (List.mem_cons_of_mem _ List.mem_cons_self)))

theorem step_search :
    (@LocalClient.step StdSort.insertion ⟨true, true, [], freshHouse⟩
      (.ask (.searchItems (literal "Item")) outcomesAtZero .unanswered)).isSome =
        true := by
  let _ : StdSort := StdSort.insertion
  obtain ⟨house, hfound⟩ := searchItems_freshHouse
  have hwritable : (ClientCall.searchItems (literal "Item")).writable = true :=
    utf8Valid_literal (by simp)
  rw [LocalClient.step, if_neg (by simp [ClientCall.needsLogin]), hwritable,
    LocalClient.ask, LocalClient.make, hfound]
  rfl

theorem exists_loginThenSearch :
    ∃ es t, (@machine StdSort.insertion conversing).run (start freshHouse)
        loginThenSearch = some (es, t) ∧
      ∀ e ∈ es, @Legible StdSort.insertion conversing e.before e.input := by
  let _ : StdSort := StdSort.insertion
  let _ : JsonText := conversing
  have hheard : (start freshHouse).heard
      (.ask rightLogin outcomesAtZero .answered) =
        .ask rightLogin outcomesAtZero .answered :=
    congrArg (TalkInput.ask _ _) (of_conversation List.mem_cons_self _)
  have hlocal := step_rightLogin outcomesAtZero
  obtain ⟨out, t, hstep, ht, hview⟩ := (attuned_start freshHouse).exists_step
    legible_rightLogin (by rw [hheard, hlocal]; rfl)
  rw [hheard, hlocal] at hview
  replace hview : t.view = ⟨true, true, [], freshHouse⟩ :=
    (Prod.mk.inj (Option.some.inj hview)).2.symm
  have hsecond := legible_search (congrArg LocalClient.server hview)
  have hheard' : t.heard (.ask (.searchItems (literal "Item")) outcomesAtZero
      .unanswered) =
        .ask (.searchItems (literal "Item")) outcomesAtZero .unanswered :=
    congrArg (TalkInput.ask _ _) (of_conversation
      (List.mem_cons_of_mem _ (List.mem_cons_of_mem _ List.mem_cons_self)) _)
  obtain ⟨out', t', hstep', -, -⟩ :=
    ht.exists_step hsecond (by rw [hview, hheard']; exact step_search)
  have hrun := Machine.run_pair (M := machine) hstep hstep'
  refine ⟨_, t', hrun, ?_⟩
  intro e he
  rcases List.mem_cons.mp he with rfl | he
  · exact legible_rightLogin
  · obtain rfl := List.mem_singleton.mp he
    exact hsecond

end Talk
end AuctionServer
