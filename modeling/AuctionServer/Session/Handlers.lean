import AuctionServer.Session.Messages

/-!
# What the handlers touch

The parts of an exchange that replies, reads and house calls leave alone, and
the standing of a session: its login and the auction house.  Two exchanges of
related standing come out of a message with related standing, when the house
calls relate the houses.
-/

namespace AuctionServer

/-- What the handlers decide upon: the login of the session, and the house. -/
structure Standing (σ : Type) where
  userId : UInt32
  authenticated : Bool
  house : σ

/-- Run on related houses, a house call ends on both and relates them. -/
abbrev TwinCall {σ α : Type} (S : σ → σ → Prop) (p : Program MessageException σ α) : Prop :=
  Program.Twin id S Program.Whichever p p

/-- The calls a message can lead to relate the houses; of the searches it is
enough that those of the given criteria do. -/
structure HouseCalls.Relate {σ : Type} (calls : HouseCalls σ) (S : σ → σ → Prop)
    (criteria : SearchCriteria → Prop) : Prop where
  registerItem : ∀ sellerId item price,
    TwinCall S (calls.registerItem sellerId item price)
  searchItems : ∀ c, criteria c → TwinCall S (calls.searchItems c)
  purchaseItem : ∀ auctionId buyerId,
    TwinCall S (calls.purchaseItem auctionId buyerId)
  cancelListing : ∀ auctionId sellerId,
    TwinCall S (calls.cancelListing auctionId sellerId)

/-- The auction house answers every call. -/
structure HouseCalls.Answers {σ : Type} (calls : HouseCalls σ) : Prop where
  registerItem : ∀ sellerId item price,
    Program.Defined (calls.registerItem sellerId item price)
  searchItems : ∀ criteria, Program.Defined (calls.searchItems criteria)
  purchaseItem : ∀ auctionId buyerId,
    Program.Defined (calls.purchaseItem auctionId buyerId)
  cancelListing : ∀ auctionId sellerId,
    Program.Defined (calls.cancelListing auctionId sellerId)

theorem HouseCalls.Answers.relate {σ : Type} {calls : HouseCalls σ}
    (h : calls.Answers) (criteria : SearchCriteria → Prop) :
    calls.Relate Eq criteria where
  registerItem sellerId item price := (h.registerItem sellerId item price).twin
  searchItems c _ := (h.searchItems c).twin
  purchaseItem auctionId buyerId := (h.purchaseItem auctionId buyerId).twin
  cancelListing auctionId sellerId := (h.cancelListing auctionId sellerId).twin

namespace ClientSession

open Program

variable {σ τ α : Type}

/-- The writer of the session. -/
def writerOf (exchange : Exchange σ) : Writer :=
  exchange.session.writer

/-- The standing of the session. -/
def standing (exchange : Exchange σ) : Standing σ where
  userId := exchange.session.userId
  authenticated := exchange.session.authenticated
  house := exchange.house

/-! ## What each step keeps -/

section Steps

variable {part : Exchange σ → τ}

theorem keeps_read (get : Json → Option α) (key : String) (data : Json) :
    Keeps part (read get key data) := by
  rw [read]
  split
  · exact keeps_ofExcept _
  · exact keeps_ofExcept _

theorem currentUser_keeps : Keeps part (currentUser : Handler σ UInt32) :=
  keeps_look _

theorem logIn_keeps_writer :
    Keeps writerOf
      (change fun exchange : Exchange σ =>
        { exchange with session := exchange.session.logIn } :
          Handler σ Unit) :=
  keeps_change fun _ => rfl

theorem onHouse_keeps_writer (p : Program MessageException σ α) :
    Keeps writerOf (onHouse p) := by
  apply keeps_within
  intro exchange house
  rfl

theorem reply_keeps_standing (message : Bytes) :
    Keeps standing (reply message : Handler σ Unit) :=
  keeps_change fun _ => rfl

variable [JsonText]

theorem keeps_dump (j : Json) : Keeps part (dump j) := by
  apply Keeps.ite
  · exact keeps_ofExcept _
  · exact keeps_ofExcept _

theorem defined_dump (j : Json) : Defined (dump j : Handler σ Bytes) := by
  apply Defined.ite
  · exact defined_ofExcept _
  · exact defined_ofExcept _

theorem sendError_keeps_standing (message : Bytes) :
    Keeps standing (sendError message : Handler σ Unit) :=
  (keeps_dump _).bind fun dumped => reply_keeps_standing dumped

theorem defined_sendError (message : Bytes) :
    Defined (sendError message : Handler σ Unit) :=
  (defined_dump _).bind fun _ => defined_change _

theorem sendSuccess_keeps_standing (data : Json) :
    Keeps standing (sendSuccess data : Handler σ Unit) :=
  (keeps_dump _).bind fun dumped => reply_keeps_standing dumped

theorem defined_sendSuccess (data : Json) :
    Defined (sendSuccess data : Handler σ Unit) :=
  (defined_dump _).bind fun _ => defined_change _

theorem recover_keeps_standing (e : MessageException) :
    Keeps standing (recover e : Handler σ Unit) := by
  cases e with
  | parseError => exact sendError_keeps_standing _
  | other => exact sendError_keeps_standing _

theorem defined_recover (e : MessageException) :
    Defined (recover e : Handler σ Unit) := by
  cases e with
  | parseError => exact defined_sendError _
  | other => exact defined_sendError _

end Steps

/-! ## Two exchanges side by side -/

/-- Two standings with the same login and related houses. -/
structure Alike (S : σ → σ → Prop) (a b : Standing σ) : Prop where
  userId : a.userId = b.userId
  authenticated : a.authenticated = b.authenticated
  house : S a.house b.house

variable {S : σ → σ → Prop}

/-- Two exchanges of alike standing stay alike. -/
abbrev StayAlike (S : σ → σ → Prop) (p : Handler σ α) : Prop :=
  Twin standing (Alike S) Whichever p p

theorem twin_read (get : Json → Option α) (key : String) (data : Json) :
    Twin standing (Alike S) Eq (read get key data) (read get key data) := by
  rw [read]
  split
  · exact twin_ofExcept _
  · exact twin_ofExcept _

theorem twin_currentUser :
    Twin standing (Alike S) Eq (currentUser : Handler σ UInt32) currentUser :=
  twin_look fun _ _ h => h.userId

theorem twin_logIn :
    Twin standing (Alike S) Eq
      (change fun exchange : Exchange σ =>
        { exchange with session := exchange.session.logIn } : Handler σ Unit)
      (change fun exchange : Exchange σ =>
        { exchange with session := exchange.session.logIn }) :=
  twin_change fun _ _ h => ⟨rfl, rfl, h.house⟩

theorem alike_onHouse {p : Program MessageException σ α}
    (h : TwinCall S p) : StayAlike S (onHouse p) := by
  intro s s' halike
  obtain ⟨r, t, r', t', hrun, hrun', -, hafter⟩ := h s.house s'.house halike.house
  refine ⟨r, { s with house := t }, r', { s' with house := t' }, ?_, ?_, trivial,
    halike.userId, halike.authenticated, hafter⟩
  · rw [ClientSession.onHouse, within, hrun]
    rfl
  · rw [ClientSession.onHouse, within, hrun']
    rfl

variable [JsonText]

theorem alike_sendError (message : Bytes) :
    StayAlike S (sendError message : Handler σ Unit) :=
  (sendError_keeps_standing message).twin (sendError_keeps_standing message)
    (defined_sendError message) (defined_sendError message)

theorem alike_sendSuccess (data : Json) :
    StayAlike S (sendSuccess data : Handler σ Unit) :=
  (sendSuccess_keeps_standing data).twin (sendSuccess_keeps_standing data)
    (defined_sendSuccess data) (defined_sendSuccess data)

variable {c : Circumstances σ} (data : Json)

theorem alike_handleLogin : StayAlike S (handleLogin c data) := by
  rw [handleLogin]
  apply Twin.ite (alike_sendError _)
  apply (twin_read _ _ _).bind
  intro username
  apply (twin_read _ _ _).bind
  intro password
  apply Twin.ite
  · apply twin_logIn.bind
    intro _
    apply twin_currentUser.bind
    intro userId
    exact alike_sendSuccess _
  · exact alike_sendError _

/-- A house call and a reply to its result. -/
theorem alike_answer {p : Program MessageException σ α} (h : TwinCall S p)
    (accepts : α → Prop) [DecidablePred accepts] (response : α → Json)
    (refusal : Bytes) :
    StayAlike S (do
      let result ← onHouse p
      if accepts result then sendSuccess (response result)
      else sendError refusal) := by
  apply (alike_onHouse h).bind_keeps
  · intro result
    exact Keeps.ite (sendSuccess_keeps_standing _) (sendError_keeps_standing _)
  · intro result
    exact Defined.ite (defined_sendSuccess _) (defined_sendError _)

theorem alike_handleRegisterItem
    (h : ∀ sellerId item price,
      TwinCall S (c.house.registerItem sellerId item price)) :
    StayAlike S (handleRegisterItem c data) := by
  rw [handleRegisterItem]
  apply Twin.ite (alike_sendError _)
  apply (twin_read _ _ _).bind
  intro itemId
  apply (twin_read _ _ _).bind
  intro itemName
  apply (twin_read _ _ _).bind
  intro price
  apply twin_currentUser.bind
  intro userId
  exact alike_answer (h _ _ _) _ _ _

theorem alike_handleSearchItems
    (h : TwinCall S (c.house.searchItems (criteriaOf data))) :
    StayAlike S (handleSearchItems c data) := by
  apply (alike_onHouse h).bind_keeps
  · intro items
    exact sendSuccess_keeps_standing _
  · intro items
    exact defined_sendSuccess _

theorem alike_handleAuction
    {call : UInt64 → UInt32 → Program MessageException σ Bool}
    (h : ∀ auctionId userId, TwinCall S (call auctionId userId))
    (success failure : String) :
    StayAlike S (handleAuction call success failure data) := by
  rw [handleAuction]
  apply Twin.ite (alike_sendError _)
  apply (twin_read _ _ _).bind
  intro auctionId
  apply twin_currentUser.bind
  intro userId
  exact alike_answer (h _ _) (fun succeeded => succeeded = true) _ _

theorem alike_authenticatedOnly {handler : Handler σ Unit}
    (h : StayAlike S handler) : StayAlike S (authenticatedOnly handler) := by
  apply Twin.bind (twin_look fun _ _ halike => halike.authenticated)
  intro authenticated
  exact Twin.ite (alike_sendError _) h

/-- The message is a search with these criteria. -/
def SearchesFor (message : Bytes) (criteria : SearchCriteria) : Prop :=
  ∃ data, JsonText.parse message = .ok data ∧
    data.field "type" = some (text "search_items") ∧
    criteria = criteriaOf data

/-- A message handled in two exchanges of alike standing leaves them alike. -/
theorem alike_processMessage {message : Bytes}
    (h : c.house.Relate S (SearchesFor message)) :
    StayAlike S (processMessage c message) := by
  apply Twin.handle_keeps ?_ recover_keeps_standing defined_recover
  · exact Whichever
  cases hparse : JsonText.parse message with
  | error e =>
      rw [ofExcept_error_bind]
      exact (keeps_raise e).twin (keeps_raise e) (defined_raise e)
        (defined_raise e)
  | ok data =>
      rw [ofExcept_ok_bind, dispatch]
      split
      · next type htype =>
          apply Twin.ite (alike_handleLogin data)
          apply Twin.ite
            (alike_authenticatedOnly (alike_handleRegisterItem data h.registerItem))
          by_cases hsearch : type = literal "search_items"
          · subst type
            rw [if_pos rfl]
            exact alike_handleSearchItems data
              (h.searchItems _ ⟨data, hparse, htype, rfl⟩)
          · rw [if_neg hsearch]
            apply Twin.ite
              (alike_authenticatedOnly (alike_handleAuction data h.purchaseItem _ _))
            apply Twin.ite
              (alike_authenticatedOnly (alike_handleAuction data h.cancelListing _ _))
            exact alike_sendError _
      · exact alike_sendError _

/-- A message comes to an end when the auction house answers. -/
theorem defined_processMessage (message : Bytes) (h : c.house.Answers) :
    Defined (processMessage c message) := by
  intro exchange
  obtain ⟨r, t, -, -, hrun, -⟩ :=
    alike_processMessage (h.relate (SearchesFor message)) exchange exchange
      ⟨rfl, rfl, rfl⟩
  exact ⟨r, t, hrun⟩

end ClientSession
end AuctionServer
