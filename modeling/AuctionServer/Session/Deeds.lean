import AuctionServer.Session.Handlers

/-!
# What a message can do

A message leaves the standing of its session as it was, or does one thing to
it: an accepted login, a search, or, once the session is authenticated, a call
for the user of the session.
-/

namespace AuctionServer

/-- The message is a login with the right name and password. -/
def acceptsLogin [JsonText] (message : Bytes) : Bool :=
  match JsonText.parse message with
  | .error _ => false
  | .ok data =>
      (data.field "type").bind Json.getString = some (literal "login") &&
        (data.field "username").bind Json.getString = some (literal "user123") &&
        (data.field "password").bind Json.getString =
          some (literal "password123")

/-- The house makes the call, and the login stays. -/
structure HouseStep {σ α : Type} (p : Program MessageException σ α)
    (a b : Standing σ) : Prop where
  call : ∃ r, p a.house = some (r, b.house)
  userId : b.userId = a.userId
  authenticated : b.authenticated = a.authenticated

/-- The one thing a message does, if it does any. -/
inductive Deed {σ : Type} [JsonText] (c : Circumstances σ) (message : Bytes)
    (a b : Standing σ) : Prop
  | login (haccepted : acceptsLogin message = true)
      (hafter : b = { a with
        userId := ClientSession.loginUser, authenticated := true })
  | search (criteria : SearchCriteria)
      (hmessage : ClientSession.SearchesFor message criteria)
      (hstep : HouseStep (c.house.searchItems criteria) a b)
  | register (item : Item) (price : UInt32) (hauth : a.authenticated = true)
      (hstep : HouseStep (c.house.registerItem a.userId item price) a b)
  | purchase (auctionId : UInt64) (hauth : a.authenticated = true)
      (hstep : HouseStep (c.house.purchaseItem auctionId a.userId) a b)
  | cancel (auctionId : UInt64) (hauth : a.authenticated = true)
      (hstep : HouseStep (c.house.cancelListing auctionId a.userId) a b)

/-- A deed is an accepted login, or it leaves the login as it was. -/
theorem Deed.login_or_kept {σ : Type} [JsonText] {c : Circumstances σ}
    {message : Bytes} {a b : Standing σ} (h : Deed c message a b) :
    (acceptsLogin message = true ∧ b.authenticated = true) ∨
      b.userId = a.userId ∧ b.authenticated = a.authenticated := by
  cases h with
  | login haccepted hafter =>
      subst hafter
      exact Or.inl ⟨haccepted, rfl⟩
  | search criteria hmessage hstep =>
      exact Or.inr ⟨hstep.userId, hstep.authenticated⟩
  | register item price hauth hstep =>
      exact Or.inr ⟨hstep.userId, hstep.authenticated⟩
  | purchase auctionId hauth hstep =>
      exact Or.inr ⟨hstep.userId, hstep.authenticated⟩
  | cancel auctionId hauth hstep =>
      exact Or.inr ⟨hstep.userId, hstep.authenticated⟩

namespace ClientSession

open Program

variable {σ α : Type} {act : Standing σ → Standing σ → Prop}

/-- The program does at most this to the standing. -/
abbrev Does (act : Standing σ → Standing σ → Prop) (p : Handler σ α) : Prop :=
  May standing act p

theorem does_onHouse (p : Program MessageException σ α) :
    Does (HouseStep p) (onHouse p) := by
  intro s r t hrun
  obtain ⟨⟨r', house⟩, hcall, heq⟩ := Option.map_eq_some_iff.mp hrun
  cases heq
  exact Or.inr ⟨⟨r, hcall⟩, rfl, rfl⟩

/-- What is read is in the message when the program acts. -/
theorem does_read_bind {get : Json → Option α} {key : String} {data : Json}
    {g : α → Handler σ Unit}
    (h : ∀ a, (data.field key).bind get = some a → Does act (g a)) :
    Does act (read get key data >>= g) := by
  rw [read]
  split
  · next a ha => exact h a ha
  · exact (keeps_raise _).may

/-- What `user_id_` is when the program acts. -/
theorem does_currentUser_bind {g : UInt32 → Handler σ Unit}
    (h : ∀ userId, Does (fun a b => a.userId = userId → act a b) (g userId)) :
    Does act (currentUser >>= g) :=
  @look_bind_may _ _ _ _ _ g standing act Standing.userId h

variable [JsonText] {c : Circumstances σ} {data : Json}

theorem does_sendError (message : Bytes) :
    Does act (sendError message : Handler σ Unit) :=
  (sendError_keeps_standing message).may

/-- A house call and a reply to its result. -/
theorem does_answer {p : Program MessageException σ α}
    (hact : ∀ a b, HouseStep p a b → act a b) (accepts : α → Prop)
    [DecidablePred accepts] (response : α → Json) (refusal : Bytes) :
    Does act (do
      let result ← onHouse p
      if accepts result then sendSuccess (response result)
      else sendError refusal) := by
  apply ((does_onHouse p).mono hact).bind_keeps
  intro result
  exact Keeps.ite (sendSuccess_keeps_standing _) (sendError_keeps_standing _)

theorem does_authenticatedOnly {handler : Handler σ Unit}
    (h : Does (fun a b => a.authenticated = true → act a b) handler) :
    Does act (authenticatedOnly handler) := by
  apply @look_bind_may _ _ _ _ _ _ standing act Standing.authenticated
  intro authenticated
  cases authenticated with
  | false => exact does_sendError _
  | true => exact h

/-! ## The deed of each handler -/

theorem does_handleLogin {message : Bytes}
    (hparse : JsonText.parse message = .ok data)
    (htype : data.field "type" = some (.string (literal "login"))) :
    Does (Deed c message) (handleLogin c data) := by
  rw [handleLogin]
  apply May.ite (does_sendError _)
  apply does_read_bind
  intro username husername
  apply does_read_bind
  intro password hpassword
  by_cases hright : username = literal "user123" ∧
      password = literal "password123"
  · rw [if_pos hright]
    obtain ⟨rfl, rfl⟩ := hright
    have haccepted : acceptsLogin message = true := by
      simp [acceptsLogin, hparse, htype, husername, hpassword, Json.getString]
    have hlogIn : Does (Deed c message)
        (change fun exchange : Exchange σ =>
          { exchange with session := exchange.session.logIn } :
            Handler σ Unit) := by
      rintro s r t ⟨⟩
      exact Or.inr (.login haccepted rfl)
    apply hlogIn.bind_keeps
    intro _
    apply currentUser_keeps.bind
    intro userId
    exact sendSuccess_keeps_standing _
  · rw [if_neg hright]
    exact does_sendError _

theorem does_handleRegisterItem {message : Bytes} :
    Does (fun a b => a.authenticated = true → Deed c message a b)
      (handleRegisterItem c data) := by
  rw [handleRegisterItem]
  apply May.ite (does_sendError _)
  apply does_read_bind
  intro itemId _
  apply does_read_bind
  intro itemName _
  apply does_read_bind
  intro price _
  apply does_currentUser_bind
  intro userId
  apply does_answer
  rintro a b hstep rfl hauth
  exact .register _ price hauth hstep

theorem does_handleSearchItems {message : Bytes}
    (hmessage : SearchesFor message (criteriaOf data)) :
    Does (Deed c message) (handleSearchItems c data) := by
  apply ((does_onHouse _).mono fun a b hstep =>
    Deed.search (criteriaOf data) hmessage hstep).bind_keeps
  intro items
  exact sendSuccess_keeps_standing _

theorem does_handleAuction
    {call : UInt64 → UInt32 → Program MessageException σ Bool}
    (hact : ∀ auctionId a b, HouseStep (call auctionId a.userId) a b → act a b)
    (success failure : String) :
    Does act (handleAuction call success failure data) := by
  rw [handleAuction]
  apply May.ite (does_sendError _)
  apply does_read_bind
  intro auctionId _
  apply does_currentUser_bind
  intro userId
  refine does_answer ?_ (fun succeeded => succeeded = true) _ _
  rintro a b hstep rfl
  exact hact auctionId a b hstep

theorem does_handlePurchaseItem {message : Bytes} :
    Does (fun a b => a.authenticated = true → Deed c message a b)
      (handlePurchaseItem c data) := by
  apply does_handleAuction
  intro auctionId a b hstep hauth
  exact .purchase auctionId hauth hstep

theorem does_handleCancelListing {message : Bytes} :
    Does (fun a b => a.authenticated = true → Deed c message a b)
      (handleCancelListing c data) := by
  apply does_handleAuction
  intro auctionId a b hstep hauth
  exact .cancel auctionId hauth hstep

theorem does_dispatch {message : Bytes}
    (hparse : JsonText.parse message = .ok data) :
    Does (Deed c message) (dispatch c data) := by
  rw [dispatch]
  split
  · next type htype =>
      by_cases hlogin : type = literal "login"
      · subst type
        rw [if_pos rfl]
        exact does_handleLogin hparse htype
      · rw [if_neg hlogin]
        apply May.ite (does_authenticatedOnly does_handleRegisterItem)
        by_cases hsearch : type = literal "search_items"
        · subst type
          rw [if_pos rfl]
          exact does_handleSearchItems ⟨data, hparse, htype, rfl⟩
        · rw [if_neg hsearch]
          apply May.ite (does_authenticatedOnly does_handlePurchaseItem)
          apply May.ite (does_authenticatedOnly does_handleCancelListing)
          exact does_sendError _
  · exact does_sendError _

/-- Whatever the message, it does one of the five deeds, or nothing. -/
theorem processMessage_deed {message : Bytes} {exchange exchange' : Exchange σ}
    {r : Except MessageException Unit}
    (h : processMessage c message exchange = some (r, exchange')) :
    standing exchange' = standing exchange ∨
      Deed c message (standing exchange) (standing exchange') := by
  have hbody : Does (Deed c message) (do
      let data ← ofExcept (JsonText.parse message)
      dispatch c data) := by
    cases hparse : JsonText.parse message with
    | error e =>
        rw [ofExcept_error_bind]
        exact (keeps_raise e).may
    | ok data =>
        rw [ofExcept_ok_bind]
        exact does_dispatch hparse
  exact (hbody.handle_keeps recover_keeps_standing) exchange r exchange' h

/-! ## Accepted logins -/

omit [JsonText] in
theorem read_eq {get : Json → Option α} {key : String} {a : α}
    (h : (data.field key).bind get = some a) :
    (read get key data : Handler σ α) = ofExcept (.ok a) := by
  rw [read, h]

omit [JsonText] in
theorem field_of_bind {get : Json → Option α} {key : String} {a : α}
    (h : (data.field key).bind get = some a) : data.contains key = true := by
  obtain ⟨j, hj, -⟩ := Option.bind_eq_some_iff.mp h
  rw [Json.contains, hj]
  rfl

/-- A login with the right name and password authenticates the session. -/
theorem processMessage_login {message : Bytes}
    (haccepted : acceptsLogin message = true)
    {exchange exchange' : Exchange σ} {r : Except MessageException Unit}
    (h : processMessage c message exchange = some (r, exchange')) :
    standing exchange' =
      { standing exchange with userId := loginUser, authenticated := true } := by
  unfold acceptsLogin at haccepted
  split at haccepted
  · cases haccepted
  · next data hparse =>
      simp only [Bool.and_eq_true, decide_eq_true_eq] at haccepted
      obtain ⟨⟨htype, husername⟩, hpassword⟩ := haccepted
      have hfield : data.field "type" = some (.string (literal "login")) := by
        obtain ⟨j, hj, hstring⟩ := Option.bind_eq_some_iff.mp htype
        cases j <;> simp [Json.getString] at hstring
        rw [hj, hstring]
      have hkeeps : ∀ u : UInt32, Keeps standing (sendSuccess
          (.object
            [("status", text "success"),
              ("user_id", .integer u.toNat),
              ("session_token", .string (literal "session_" ++
                decimal u.toNat ++ literal "_" ++ decimal c.now.toInt))]) :
            Handler σ Unit) := fun u => sendSuccess_keeps_standing _
      rw [processMessage, hparse, ofExcept_ok_bind, dispatch, hfield] at h
      simp only [if_true, handleLogin, field_of_bind husername,
        field_of_bind hpassword, Bool.not_true, Bool.or_self,
        Bool.false_eq_true, if_false, read_eq husername, read_eq hpassword,
        ofExcept_ok_bind, and_self] at h
      -- The members are set before the reply, which keeps them.
      have htail := currentUser_keeps.bind hkeeps
      rcases handle_eq_some.mp h with ⟨a, hvalue, -⟩ | ⟨e, s', hraised, hrest⟩
      · rw [change_bind] at hvalue
        exact htail _ _ _ hvalue
      · rw [change_bind] at hraised
        exact (recover_keeps_standing e _ _ _ hrest).trans (htail _ _ _ hraised)

end ClientSession
end AuctionServer
