import AuctionServer.House.UnsetSearches
import AuctionServer.Session.Authentication
import AuctionServer.Session.CachedReplies

/-!
# Replies and the fields nobody sets

Two runs get the same messages and the same answers from the stores, and differ
in what the fields hold that `handle_register_item` and `getCachedSearch` leave
unassigned.  As long as no search asks for a type while a listing registered in
the run can be found by it, every client is sent the same replies.  A search for
a type after a registration can tell the runs apart.
-/

namespace AuctionServer

open Program

/-- The outcomes of a message that differ in unset fields at most. -/
structure MessageOutcomes.SameCalls (o o' : MessageOutcomes) : Prop where
  now : o.now = o'.now
  register : o.register = o'.register
  search : o.search.SameCalls o'.search
  purchase : o.purchase = o'.purchase
  cancel : o.cancel = o'.cancel

namespace ClientSession

/-! ## Two exchanges -/

/-- The sessions are the same, and the houses alike up to some listings of the
set. -/
def SameSide (ids : Set UInt64) (x x' : Exchange Server) : Prop :=
  x.session = x'.session ∧ ∃ ids' ⊆ ids, x.house.Alike ids' x'.house

/-- The second handler does to its session what the first does. -/
abbrev Agree (ids : Set UInt64) {α : Type} (p q : Handler Server α) : Prop :=
  Follows (SameSide ids) (SameSide ids) Eq p q

variable {ids : Set UInt64} {α β : Type}

theorem agree_ofExcept (x : Except MessageException α) :
    Agree ids (ofExcept x) (ofExcept x) :=
  follows_ofExcept x

theorem Agree.bind {p q : Handler Server α} {g g' : α → Handler Server β}
    (hp : Agree ids p q) (hg : ∀ a, Agree ids (g a) (g' a)) :
    Agree ids (p >>= g) (q >>= g') := by
  refine Follows.bind hp ?_ fun _ _ h => h
  rintro a _ rfl
  exact hg a

theorem agree_session {f : ClientSession → ClientSession} :
    Agree ids
      (change fun x : Exchange Server => { x with session := f x.session } :
        Handler Server Unit)
      (change fun x => { x with session := f x.session }) :=
  follows_change fun _ _ ⟨hsession, hhouse⟩ => ⟨congrArg f hsession, hhouse⟩

theorem agree_currentUser : Agree ids currentUser currentUser :=
  follows_look fun _ _ h => congrArg ClientSession.userId h.1

theorem agree_read (get : Json → Option α) (key : String) (data : Json) :
    Agree ids (read get key data) (read get key data) := by
  rw [read]
  split
  · exact agree_ofExcept _
  · exact agree_ofExcept _

variable [JsonText]

theorem agree_dump (j : Json) : Agree ids (dump j) (dump j) :=
  Follows.ite (agree_ofExcept _) (agree_ofExcept _)

theorem agree_sendError (message : Bytes) :
    Agree ids (sendError message) (sendError message) :=
  (agree_dump _).bind fun dumped =>
    @agree_session ids fun session =>
      { session with writer := session.writer.send dumped }

theorem agree_sendSuccess (data : Json) :
    Agree ids (sendSuccess data) (sendSuccess data) :=
  (agree_dump _).bind fun dumped =>
    @agree_session ids fun session =>
      { session with writer := session.writer.send dumped }

theorem agree_recover (e : MessageException) :
    Agree ids (recover e) (recover e) := by
  cases e with
  | parseError => exact agree_sendError _
  | other => exact agree_sendError _

omit [JsonText] in
/-- Handlers that agree do so under any condition. -/
theorem Agree.given {p q : Handler Server α} (h : Agree ids p q)
    (P : Exchange Server → Prop) :
    Follows (fun x x' => SameSide ids x x' ∧ P x) (SameSide ids) Eq p q :=
  fun x x' r y hR hrun => h x x' r y hR.1 hrun

omit [JsonText] in
theorem corresponds_self (r : Except MessageException α) : Corresponds Eq r r := by
  cases r with
  | error e => rfl
  | ok a => rfl

/-! ## Calls of the house -/

variable [StdSort] {o o' : MessageOutcomes}

omit [JsonText] [StdSort] in
/-- A call under a condition on the house, and an answer to its result. -/
theorem follows_onHouse {P : Server → Prop} {V : α → β → Prop}
    {p : Program MessageException Server α} {q : Program MessageException Server β}
    (h : ∀ ids' ⊆ ids, ∀ s t r s', s.Alike ids' t → P s → p s = some (r, s') →
      ∃ r' t', q t = some (r', t') ∧ Corresponds V r r' ∧
        ∃ ids'' ⊆ ids, s'.Alike ids'' t') :
    Follows (fun x x' => SameSide ids x x' ∧ P x.house) (SameSide ids) V
      (onHouse p) (onHouse q) := by
  have hcall : Follows (fun s t => (∃ ids' ⊆ ids, s.Alike ids' t) ∧ P s)
      (fun s t => ∃ ids' ⊆ ids, s.Alike ids' t) V p q := by
    rintro s t r s' ⟨⟨ids', hsub, halike⟩, hP⟩ hrun
    exact h ids' hsub s t r s' halike hP hrun
  refine follows_within hcall ?_ ?_
  · rintro x x' ⟨⟨-, hhouse⟩, hP⟩
    exact ⟨hhouse, hP⟩
  · rintro x x' s t ⟨⟨hsession, -⟩, -⟩ halike
    exact ⟨hsession, halike⟩

omit [JsonText] [StdSort] in
theorem seen_congr {γ : Type} (view : α → γ) {r r' : Except StoreException α}
    (h : r.map view = r'.map view) :
    Corresponds (fun a b => view a = view b) (Server.seen r) (Server.seen r') := by
  cases r with
  | error e =>
      cases r' with
      | error e' => rfl
      | ok b => cases h
  | ok a =>
      cases r' with
      | error e' => cases h
      | ok b => exact Except.ok.inj h

/-- The next registration is of an id that is not in use, and in the set. -/
def MayRegister (ids : Set UInt64) (s : Server) : Prop :=
  s.NextIdUnused ∧ s.house.nextAuctionId ∈ ids

omit [JsonText] in
theorem follows_registerItem (ho : o.SameCalls o') {item item' : Item}
    (hitem : item.blank = item'.blank) (sellerId price : UInt32) :
    Follows (fun x x' => SameSide ids x x' ∧ MayRegister ids x.house) (SameSide ids)
      Eq (onHouse ((Server.calls o).registerItem sellerId item price))
      (onHouse ((Server.calls o').registerItem sellerId item' price)) := by
  apply follows_onHouse
  rintro ids' hsub s t r s' halike ⟨hunused, hmem⟩ hrun
  obtain ⟨hresult, hafter⟩ :=
    halike.registerItem o.now sellerId price hunused hitem o.register
  have hcall : r = Server.seen (s.registerItem o.register o.now sellerId item
        price).1 ∧
      s' = (s.registerItem o.register o.now sellerId item price).2 := by
    obtain ⟨hr, hs'⟩ := Prod.mk.inj (Option.some.inj hrun)
    exact ⟨hr.symm, hs'.symm⟩
  obtain ⟨rfl, rfl⟩ := hcall
  refine ⟨Server.seen (t.registerItem o'.register o'.now sellerId item' price).1,
    (t.registerItem o'.register o'.now sellerId item' price).2, rfl, ?_, _,
    Set.insert_subset hmem hsub, ?_⟩
  · rw [hresult, ho.now, ho.register]
    exact corresponds_self _
  · rw [← ho.now, ← ho.register]
    exact hafter

/-- The search is answered from the cache, or finds no listing of the set by its
type. -/
def MaySearch (ids : Set UInt64) (o : MessageOutcomes) (criteria : SearchCriteria)
    (s : Server) : Prop :=
  s.cachedResults o.search criteria ≠ none ∨ s.Hides ids criteria

omit [JsonText] in
theorem follows_searchItems (hsort : StdSort.Natural) (ho : o.SameCalls o')
    (criteria : SearchCriteria) :
    Follows (fun x x' => SameSide ids x x' ∧ MaySearch ids o criteria x.house)
      (SameSide ids) (fun items items' => items.map shown = items'.map shown)
      (onHouse ((Server.calls o).searchItems criteria))
      (onHouse ((Server.calls o').searchItems criteria)) := by
  apply follows_onHouse
  rintro ids' hsub s t r s' halike hread hrun
  obtain ⟨⟨result, u⟩, hsearch, heq⟩ := Option.map_eq_some_iff.mp hrun
  obtain ⟨rfl, rfl⟩ := Prod.mk.inj heq
  have hread' : s.cachedResults o.search criteria ≠ none ∨
      s.Hides ids' criteria :=
    hread.imp_right fun hhides => hhides.imp_right fun hhidden id hid =>
      hhidden id (hsub hid)
  obtain ⟨result', t', hsearch', hresult, hafter⟩ :=
    halike.searchItems hsort ho.search hread' hsearch
  refine ⟨Server.seen result', t', ?_, seen_congr _ hresult, ids', hsub, hafter⟩
  simp [Server.calls, hsearch']

omit [JsonText] [StdSort] in
/-- A call that needs no condition. -/
theorem agree_onHouse {p q : Program MessageException Server α}
    {f g : Server → Except MessageException α × Server}
    (hp : ∀ s, p s = some (f s)) (hq : ∀ s, q s = some (g s))
    (h : ∀ ids' s t, s.Alike ids' t →
      (f s).1 = (g t).1 ∧ Server.Alike ids' (f s).2 (g t).2) :
    Agree ids (onHouse p) (onHouse q) := by
  have hcall := @follows_onHouse ids α α (fun _ => True) Eq p q ?_
  · exact fun x x' r y hR hrun => hcall x x' r y ⟨hR, trivial⟩ hrun
  rintro ids' hsub s t r s' halike - hrun
  rw [hp] at hrun
  obtain ⟨hresult, hafter⟩ := h ids' s t halike
  obtain ⟨rfl, rfl⟩ := Prod.mk.inj (Option.some.inj hrun)
  refine ⟨(g t).1, (g t).2, hq t, ?_, ids', hsub, hafter⟩
  rw [hresult]
  exact corresponds_self _

omit [JsonText] in
theorem agree_purchaseItem (ho : o.SameCalls o') (auctionId : UInt64)
    (buyerId : UInt32) :
    Agree ids (onHouse ((Server.calls o).purchaseItem auctionId buyerId))
      (onHouse ((Server.calls o').purchaseItem auctionId buyerId)) := by
  refine agree_onHouse (fun _ => rfl) (fun _ => rfl) ?_
  intro ids' s t halike
  obtain ⟨hresult, hafter⟩ := halike.purchaseItem o.purchase o.now auctionId buyerId
  rw [← ho.now, ← ho.purchase]
  exact ⟨congrArg Except.ok hresult, hafter⟩

omit [JsonText] in
theorem agree_cancelListing (ho : o.SameCalls o') (auctionId : UInt64)
    (sellerId : UInt32) :
    Agree ids (onHouse ((Server.calls o).cancelListing auctionId sellerId))
      (onHouse ((Server.calls o').cancelListing auctionId sellerId)) := by
  refine agree_onHouse (fun _ => rfl) (fun _ => rfl) ?_
  intro ids' s t halike
  obtain ⟨hresult, hafter⟩ := halike.cancelListing o.cancel auctionId sellerId
  rw [← ho.cancel]
  exact ⟨congrArg Server.seen hresult, hafter⟩

/-! ## Handlers -/

variable (data : Json)

theorem agree_handleLogin (ho : o.SameCalls o') :
    Agree ids (handleLogin (Crowd.circumstances o) data)
      (handleLogin (Crowd.circumstances o') data) := by
  have hnow : (Crowd.circumstances o).now = (Crowd.circumstances o').now := ho.now
  rw [handleLogin, handleLogin, hnow]
  apply Follows.ite (agree_sendError _)
  apply (agree_read _ _ _).bind
  intro username
  apply (agree_read _ _ _).bind
  intro password
  apply Follows.ite
  · apply agree_session.bind
    intro _
    apply agree_currentUser.bind
    intro userId
    exact agree_sendSuccess _
  · exact agree_sendError _

omit [StdSort] in
theorem agree_handleAuction {call call' : UInt64 → UInt32 →
      Program MessageException Server Bool}
    (h : ∀ auctionId userId,
      Agree ids (onHouse (call auctionId userId)) (onHouse (call' auctionId userId)))
    (success failure : String) :
    Agree ids (handleAuction call success failure data)
      (handleAuction call' success failure data) := by
  rw [handleAuction, handleAuction]
  apply Follows.ite (agree_sendError _)
  apply (agree_read _ _ _).bind
  intro auctionId
  apply agree_currentUser.bind
  intro userId
  apply (h auctionId userId).bind
  intro succeeded
  exact Follows.ite (agree_sendSuccess _) (agree_sendError _)

/-- The members are read before the call, so it is made when they can be. -/
theorem follows_handleRegisterItem (ho : o.SameCalls o') :
    Follows (fun x x' => SameSide ids x x' ∧
        ∀ itemId itemName price, ReadsItem data itemId itemName price →
          MayRegister ids x.house)
      (SameSide ids) Eq (handleRegisterItem (Crowd.circumstances o) data)
      (handleRegisterItem (Crowd.circumstances o') data) := by
  have hraise : ∀ {γ : Type} (e : MessageException),
      Agree ids (raise e : Handler Server γ) (raise e) :=
    fun e => agree_ofExcept (.error e)
  rw [handleRegisterItem, handleRegisterItem]
  apply Follows.ite ((agree_sendError _).given _)
  cases hid : (data.field "item_id").bind Json.getUInt32 with
  | none =>
      rw [read_bind_error hid, read_bind_error hid]
      exact (hraise _).given _
  | some itemId =>
  rw [read_eq hid, ofExcept_ok_bind, ofExcept_ok_bind]
  cases hname : (data.field "item_name").bind Json.getString with
  | none =>
      rw [read_bind_error hname, read_bind_error hname]
      exact (hraise _).given _
  | some itemName =>
  rw [read_eq hname, ofExcept_ok_bind, ofExcept_ok_bind]
  cases hprice : (data.field "price").bind Json.getUInt32 with
  | none =>
      rw [read_bind_error hprice, read_bind_error hprice]
      exact (hraise _).given _
  | some price =>
  rw [read_eq hprice, ofExcept_ok_bind, ofExcept_ok_bind]
  have huser : Follows (fun x x' => SameSide ids x x' ∧
        ∀ itemId itemName price, ReadsItem data itemId itemName price →
          MayRegister ids x.house)
      (fun x x' => SameSide ids x x' ∧ MayRegister ids x.house) Eq
      (currentUser : Handler Server UInt32) currentUser := by
    rintro x x' r y ⟨hside, hready⟩ hrun
    obtain ⟨r', y', hrun', hV, hside'⟩ := agree_currentUser x x' r y hside hrun
    obtain ⟨-, rfl⟩ := Prod.mk.inj (Option.some.inj hrun)
    exact ⟨r', y', hrun', hV, hside', hready itemId itemName price
      ⟨hid, hname, hprice⟩⟩
  refine huser.bind ?_ fun x x' h => h.1
  rintro userId _ rfl
  have hitem : (itemFor o.unset userId itemId itemName).blank =
      (itemFor o'.unset userId itemId itemName).blank := rfl
  refine (follows_registerItem ho hitem userId price).bind ?_ fun x x' h => h
  rintro auctionId _ rfl
  exact Follows.ite (agree_sendSuccess _) (agree_sendError _)

theorem follows_handleSearchItems (hsort : StdSort.Natural) (ho : o.SameCalls o') :
    Follows (fun x x' => SameSide ids x x' ∧
        MaySearch ids o (criteriaOf data) x.house)
      (SameSide ids) Eq (handleSearchItems (Crowd.circumstances o) data)
      (handleSearchItems (Crowd.circumstances o') data) := by
  refine (follows_searchItems hsort ho (criteriaOf data)).bind ?_ fun x x' h => h
  intro items items' hshown
  have hlength : items.length = items'.length := by
    simpa using congrArg List.length hshown
  rw [itemJson_of_shown hshown, hlength]
  exact agree_sendSuccess _

omit [StdSort] in
theorem follows_authenticatedOnly {handler handler' : Handler Server Unit}
    {P Q : Exchange Server → Prop}
    (h : Follows (fun x x' => SameSide ids x x' ∧ Q x) (SameSide ids) Eq handler
      handler')
    (hready : ∀ x, P x → x.session.authenticated = true → Q x) :
    Follows (fun x x' => SameSide ids x x' ∧ P x) (SameSide ids) Eq
      (authenticatedOnly handler) (authenticatedOnly handler') := by
  rintro x x' r y ⟨hside, hP⟩ hrun
  have hsession : x'.session.authenticated = x.session.authenticated := by
    rw [hside.1]
  rw [authenticatedOnly, look_bind] at hrun ⊢
  rw [hsession]
  cases hauth : x.session.authenticated with
  | false =>
      rw [hauth] at hrun
      exact agree_sendError _ x x' r y hside hrun
  | true =>
      rw [hauth] at hrun
      exact h x x' r y ⟨hside, hready x hP hauth⟩ hrun

/-- What the message may rely on: a registration finds an id that is not in use,
a search no listing of the set by its type. -/
structure Ready (ids : Set UInt64) (o : MessageOutcomes) (message : Bytes)
    (x : Exchange Server) : Prop where
  register : x.session.authenticated = true → ∀ data itemId itemName price,
    JsonText.parse message = .ok data →
      data.field "type" = some (text "register_item") →
        ReadsItem data itemId itemName price → MayRegister ids x.house
  search : ∀ criteria, SearchesFor message criteria →
    MaySearch ids o criteria x.house

/-- A message is answered the same in two exchanges. -/
theorem follows_processMessage (hsort : StdSort.Natural) (ho : o.SameCalls o')
    (message : Bytes) :
    Follows (fun x x' => SameSide ids x x' ∧ Ready ids o message x) (SameSide ids)
      Eq (processMessage (Crowd.circumstances o) message)
      (processMessage (Crowd.circumstances o') message) := by
  apply Follows.handle ?_ agree_recover
  cases hparse : JsonText.parse message with
  | error e =>
      rw [ofExcept_error_bind, ofExcept_error_bind]
      exact (agree_ofExcept (.error e)).given _
  | ok data =>
  rw [ofExcept_ok_bind, ofExcept_ok_bind, dispatch, dispatch]
  split
  · next type htype =>
      apply Follows.ite ((agree_handleLogin data ho).given _)
      by_cases hregister : type = literal "register_item"
      · subst type
        rw [if_pos rfl, if_pos rfl]
        exact follows_authenticatedOnly (follows_handleRegisterItem data ho)
          fun x hready hauth itemId itemName price =>
            hready.register hauth data itemId itemName price hparse htype
      rw [if_neg hregister, if_neg hregister]
      by_cases hsearch : type = literal "search_items"
      · subst type
        rw [if_pos rfl, if_pos rfl]
        rintro x x' r y ⟨hside, hready⟩ hrun
        exact follows_handleSearchItems data hsort ho x x' r y
          ⟨hside, hready.search _ ⟨data, hparse, htype, rfl⟩⟩ hrun
      rw [if_neg hsearch, if_neg hsearch]
      apply Follows.ite
        (follows_authenticatedOnly ((agree_handleAuction data
          (agree_purchaseItem ho) _ _).given fun _ => True) fun _ _ _ => trivial)
      apply Follows.ite
        (follows_authenticatedOnly ((agree_handleAuction data
          (agree_cancelListing ho) _ _).given fun _ => True) fun _ _ _ => trivial)
      exact (agree_sendError _).given _
  · exact (agree_sendError _).given _

end ClientSession

/-! ## Runs of the crowd -/

/-- The inputs differ in unset fields at most. -/
def CrowdInput.SameButUnset {ι : Type} : CrowdInput ι → CrowdInput ι → Prop
  | .message i sent o, .message i' sent' o' =>
      i = i' ∧ sent = sent' ∧ o.SameCalls o'
  | .expireKey key, .expireKey key' => key = key'
  | _, _ => False

namespace Crowd

open ClientSession

variable {ι : Type} [JsonText]

/-- The event carries a registration out: a session that is logged in sends the
members of an item. -/
def Registers (e : Event ι) : Prop :=
  match e.input with
  | .message i message _ =>
      (e.before.sessions i).authenticated = true ∧
        ∃ data itemId itemName price, JsonText.parse message = .ok data ∧
          data.field "type" = some (text "register_item") ∧
          ReadsItem data itemId itemName price
  | .expireKey _ => False

/-- The ids that registrations of the run were carried out with. -/
def registeredIds (past : List (Event ι)) : Set UInt64 :=
  {id | ∃ e ∈ past, Registers e ∧ e.before.server.house.nextAuctionId = id}

/-- The event reads no field that nobody set: a registration gets an id that is
not in use, and a search either asks for no type, or is answered from the cache,
or comes when no listing registered in the run can be found by its type. -/
structure ReadsNoUnset (past : List (Event ι)) (e : Event ι) : Prop where
  register : Registers e → e.before.server.NextIdUnused
  search : ∀ i message o criteria, e.input = .message i message o →
    SearchesFor message criteria →
      e.before.server.cachedResults o.search criteria ≠ none ∨
        e.before.server.Hides (registeredIds past) criteria

/-- After every step, every client has been sent the same in both runs. -/
def SameReplies (es es' : List (Event ι)) : Prop :=
  List.Forall₂ (fun e e' => ∀ i,
    (e.after.sessions i).writer = (e'.after.sessions i).writer) es es'

/-- The replies of a run from new sessions over a server do not depend on the
fields nobody sets. -/
def RepliesIgnoreUnset [DecidableEq ι] [StdSort] (s : Server)
    (inputs : List (CrowdInput ι)) : Prop :=
  ∀ inputs', List.Forall₂ CrowdInput.SameButUnset inputs inputs' →
    ∀ es t, machine.run (start s) inputs = some (es, t) →
      ∃ es' t', machine.run (start s) inputs' = some (es', t') ∧
        SameReplies es es'

/-- The two crowds after a run and what its unset fields let it differ in. -/
def SameCrowd (past : List (Event ι)) (crowd crowd' : Crowd ι) : Prop :=
  crowd.sessions = crowd'.sessions ∧
    ∃ ids ⊆ registeredIds past, crowd.server.Alike ids crowd'.server

variable [DecidableEq ι] [StdSort]

omit [DecidableEq ι] [StdSort] in
theorem mem_registeredIds_concat {past : List (Event ι)} {e : Event ι}
    {id : UInt64} :
    id ∈ registeredIds (past ++ [e]) ↔ id ∈ registeredIds past ∨
      (Registers e ∧ e.before.server.house.nextAuctionId = id) := by
  simp only [registeredIds, Set.mem_ofPred_eq, List.mem_append, List.mem_singleton,
    or_and_right, exists_or, exists_eq_left]

omit [DecidableEq ι] [StdSort] in
/-- A search is no registration. -/
theorem not_registers_of_searches {crowd crowd' : Crowd ι} {i : ι}
    {message : Bytes} {o : MessageOutcomes} {r : Except MessageException Unit}
    {criteria : SearchCriteria} (h : SearchesFor message criteria) :
    ¬ Registers (⟨crowd, .message i message o, r, crowd'⟩ : Event ι) := by
  rintro ⟨-, data, itemId, itemName, price, hparse, htype, -⟩
  obtain ⟨data', hparse', htype', -⟩ := h
  obtain rfl := Except.ok.inj (hparse.symm.trans hparse')
  have hne : literal "register_item" ≠ literal "search_items" := by decide
  exact hne (Json.string.inj (Option.some.inj (htype.symm.trans htype')))

omit [DecidableEq ι] [StdSort] in
/-- An event that reads no unset field lets the handlers rely on that. -/
theorem ReadsNoUnset.ready {past : List (Event ι)} {crowd crowd' : Crowd ι} {i : ι}
    {message : Bytes} {o : MessageOutcomes} {r : Except MessageException Unit}
    (h : ReadsNoUnset past ⟨crowd, .message i message o, r, crowd'⟩) :
    Ready (registeredIds (past ++ [⟨crowd, .message i message o, r, crowd'⟩])) o
      message (crowd.exchange i) := by
  constructor
  · intro hauth data itemId itemName price hparse htype hitem
    have hregisters : Registers
        (⟨crowd, .message i message o, r, crowd'⟩ : Event ι) :=
      ⟨hauth, data, itemId, itemName, price, hparse, htype, hitem⟩
    exact ⟨h.register hregisters,
      mem_registeredIds_concat.mpr (Or.inr ⟨hregisters, rfl⟩)⟩
  · intro criteria hsearch
    refine (h.search i message o criteria rfl hsearch).imp_right fun hhides =>
      hhides.imp_right fun hhidden id hid => ?_
    rcases mem_registeredIds_concat.mp hid with hid | ⟨hregisters, -⟩
    · exact hhidden id hid
    · exact (not_registers_of_searches hsearch hregisters).elim

theorem SameCrowd.message (hsort : StdSort.Natural) {past : List (Event ι)}
    {crowd after crowd' : Crowd ι} {i : ι} {message : Bytes}
    {o o' : MessageOutcomes} {r : Except MessageException Unit}
    (h : SameCrowd past crowd crowd') (ho : o.SameCalls o')
    (hreads : ReadsNoUnset past ⟨crowd, .message i message o, r, after⟩)
    (hstep : crowd.step (.message i message o) = some (r, after)) :
    ∃ t', crowd'.step (.message i message o') = some (r, t') ∧
      SameCrowd (past ++ [⟨crowd, .message i message o, r, after⟩]) after t' := by
  obtain ⟨hsessions, ids, hsub, halike⟩ := h
  have hready := hreads.ready
  generalize hS : registeredIds (past ++ [⟨crowd, .message i message o, r, after⟩])
    = S at hready
  have hside : SameSide S (crowd.exchange i) (crowd'.exchange i) := by
    refine ⟨congrFun hsessions i, ids, fun id hid => ?_, halike⟩
    rw [← hS]
    exact mem_registeredIds_concat.mpr (Or.inl (hsub hid))
  obtain ⟨⟨r₀, x⟩, hprocess, heq⟩ := Option.map_eq_some_iff.mp hstep
  obtain ⟨rfl, rfl⟩ := Prod.mk.inj heq
  obtain ⟨r', x', hprocess', hV, hsession, ids', hsub', halike'⟩ :=
    follows_processMessage hsort ho message _ _ _ _ ⟨hside, hready⟩ hprocess
  have hresult : r' = r₀ := by
    cases r₀ with
    | error e =>
        cases r' with
        | error e' => exact congrArg Except.error hV.symm
        | ok u => exact hV.elim
    | ok u =>
        cases r' with
        | error e' => exact hV.elim
        | ok u' => rfl
  refine ⟨crowd'.after i x', by simp [Crowd.step, hprocess', hresult], ?_, ids', ?_,
    halike'⟩
  · simp only [after, hsessions, hsession]
  · rw [hS]
    exact hsub'

/-- One step of both runs. -/
theorem SameCrowd.step (hsort : StdSort.Natural) {past : List (Event ι)}
    {e : Event ι} {crowd' : Crowd ι} {input' : CrowdInput ι}
    (hfires : machine.Fires e) (hreads : ReadsNoUnset past e)
    (h : SameCrowd past e.before crowd') (hinput : e.input.SameButUnset input') :
    ∃ t', machine.step crowd' input' = some (e.output, t') ∧
      SameCrowd (past ++ [e]) e.after t' := by
  obtain ⟨crowd, input, output, after⟩ := e
  replace hfires : crowd.step input = some (output, after) := hfires
  cases input with
  | message i message o =>
      cases input' with
      | expireKey key' => exact hinput.elim
      | message i' message' o' =>
          obtain ⟨rfl, rfl, ho⟩ := hinput
          exact h.message hsort ho hreads hfires
  | expireKey key =>
      cases input' with
      | message i' message' o' => exact hinput.elim
      | expireKey key' =>
          replace hinput : key = key' := hinput
          obtain ⟨hsessions, ids, hsub, halike⟩ := h
          obtain ⟨rfl, rfl⟩ := Prod.mk.inj (Option.some.inj hfires)
          rw [← hinput]
          refine ⟨_, rfl, hsessions, ids, fun id hid => ?_, halike.expireKey key⟩
          exact mem_registeredIds_concat.mpr (Or.inl (hsub hid))

/-- In a run that reads no unset field every client is sent the same, whatever
these fields hold. -/
theorem sameReplies_of_readsNoUnset (hsort : StdSort.Natural) {s : Server}
    (hreach : s.Reachable) {inputs inputs' : List (CrowdInput ι)}
    (hinputs : List.Forall₂ CrowdInput.SameButUnset inputs inputs')
    {es : List (Event ι)} {t : Crowd ι}
    (hrun : machine.run (start s) inputs = some (es, t))
    (hreads : ∀ past e rest, es = past ++ e :: rest → ReadsNoUnset past e) :
    ∃ es' t', machine.run (start s) inputs' = some (es', t') ∧
      SameReplies es es' := by
  have hstart : SameCrowd ([] : List (Event ι)) (start s) (start s) :=
    ⟨rfl, ∅, Set.empty_subset _, hreach.occupied.alike⟩
  obtain ⟨es', t', hrun', hevents⟩ := Machine.run_follows
    (fun past e crowd' input' hfires hreads h hinput =>
      h.step hsort hfires hreads hinput) hinputs hrun hreads hstart
  refine ⟨es', t', hrun', hevents.imp ?_⟩
  rintro e e' ⟨-, past, hsessions, -⟩ i
  rw [hsessions]

/-! ## A registration and a search -/

omit [DecidableEq ι] [StdSort]

/-- The type a message would search for. -/
def typeAsked (message : Bytes) : UInt32 :=
  match JsonText.parse message with
  | .ok data => (criteriaOf data).itemType
  | .error _ => 0

theorem itemType_of_searchesFor {message : Bytes} {criteria : SearchCriteria}
    (h : SearchesFor message criteria) :
    criteria.itemType = typeAsked message := by
  obtain ⟨data, hparse, -, rfl⟩ := h
  rw [typeAsked, hparse]

omit [JsonText]

/-- The text of a registration. -/
def registerText : Bytes :=
  literal ("\x7b\"type\":\"register_item\",\"item_id\":1," ++
    "\"item_name\":\"iron sword\",\"price\":60\x7d")

/-- The text of a search for everything. -/
def searchText : Bytes :=
  literal "\x7b\"type\":\"search_items\"\x7d"

/-- The text of a search for items of type 5. -/
def typedSearchText : Bytes :=
  literal "\x7b\"type\":\"search_items\",\"item_type\":5\x7d"

/-- A parser that knows these texts, and texts that tell how much was found. -/
@[reducible] def trading : JsonText where
  parse message :=
    (JsonText.sample
      [(loginText, .object
          [("type", text "login"), ("username", text "user123"),
            ("password", text "password123")]),
        (registerText, .object
          [("type", text "register_item"), ("item_id", .integer 1),
            ("item_name", text "iron sword"), ("price", .integer 60)]),
        (searchText, .object [("type", text "search_items")]),
        (typedSearchText, .object
          [("type", text "search_items"), ("item_type", .integer 5)])]).parse message
  text j :=
    match j.field "total_count" with
    | some (.integer n) => decimal n
    | _ => literal "null"

/-- The store answers, and the fields nobody sets hold a type. -/
def holdingType (type : UInt32) : MessageOutcomes where
  now := 1000
  unset := { type, rarity := 0, level := 0 }
  register := ⟨.done, .answered⟩
  search := ⟨.answered, fun _ => default, fun _ => .answered, .done⟩
  purchase := default
  cancel := default

/-- A client logs in, registers an item and searches. -/
def registerThenSearch (query : Bytes) (type : UInt32) : List (CrowdInput Unit) :=
  [loginText, registerText, query].map fun sent =>
    .message () sent (holdingType type)

theorem sameButUnset_registerThenSearch (query : Bytes) (type type' : UInt32) :
    List.Forall₂ CrowdInput.SameButUnset (registerThenSearch query type)
      (registerThenSearch query type') := by
  have hcalls : (holdingType type).SameCalls (holdingType type') :=
    ⟨rfl, rfl, ⟨rfl, rfl, rfl⟩, rfl, rfl⟩
  exact .cons ⟨rfl, rfl, hcalls⟩ (.cons ⟨rfl, rfl, hcalls⟩
    (.cons ⟨rfl, rfl, hcalls⟩ .nil))

/-- What a client sees of a search for everything does not depend on the type of
its own listing. -/
theorem sameReplies_search :
    ∃ s es t es' t', @Server.Reachable StdSort.insertion s ∧
      (@machine Unit _ StdSort.insertion trading).run (start s)
        (registerThenSearch searchText 5) = some (es, t) ∧
      (@machine Unit _ StdSort.insertion trading).run (start s)
        (registerThenSearch searchText 6) = some (es', t') ∧
      SameReplies es es' := by
  obtain ⟨calls, s, hserve, hp⟩ :=
    @Server.exists_serve StdSort.insertion Server.market [] none
      (fun _ => .answered) []
      (fun _ s => ((@machine Unit _ StdSort.insertion trading).run (start s)
        (registerThenSearch searchText 5)).any fun r =>
          r.1.all fun e => decide e.before.server.NextIdUnused)
      (by decide +kernel)
  have hreach : @Server.Reachable StdSort.insertion s :=
    ⟨Server.market, [], none, _, _, calls, hserve⟩
  obtain ⟨⟨es, t⟩, hrun, hunused⟩ := (Option.any_eq_true _ _).mp hp
  have hasked : ∀ message ∈ [loginText, registerText, searchText],
      @typeAsked trading message = 0 := by decide +kernel
  have hreads : ∀ past e rest, es = past ++ e :: rest →
      @ReadsNoUnset Unit trading past e := by
    intro past e rest hsplit
    have hmem : e ∈ es := by simp [hsplit]
    refine @ReadsNoUnset.mk Unit trading past e ?_ ?_
    · intro _
      simpa using List.all_eq_true.mp hunused e hmem
    · intro i message o criteria hinput hsearch
      have hin := Machine.run_input_mem hrun e hmem
      rw [hinput] at hin
      obtain ⟨sent, htext, heq⟩ := List.mem_map.mp hin
      obtain ⟨-, rfl, -⟩ := CrowdInput.message.inj heq
      exact Or.inr (Or.inl ((@itemType_of_searchesFor trading _ _ hsearch).trans
        (hasked sent htext)))
  obtain ⟨es', t', hrun', hsame⟩ :=
    @sameReplies_of_readsNoUnset Unit trading _ StdSort.insertion
      StdSort.insertion_natural s hreach _ _
      (sameButUnset_registerThenSearch searchText 5 6) es t hrun hreads
  exact ⟨s, es, t, es', t', hreach, hrun, hrun', hsame⟩

/-- A search for a type shows what the field held that nobody set. -/
theorem typed_search_shows_unset :
    ∃ s, @Server.Reachable StdSort.insertion s ∧
      ¬ @RepliesIgnoreUnset Unit trading _ StdSort.insertion s
        (registerThenSearch typedSearchText 5) := by
  obtain ⟨calls, s, hserve, hp⟩ :=
    @Server.exists_serve StdSort.insertion Server.market [] none
      (fun _ => .answered) []
      (fun _ s => ((@machine Unit _ StdSort.insertion trading).run (start s)
        (registerThenSearch typedSearchText 5)).any fun r =>
          ((@machine Unit _ StdSort.insertion trading).run (start s)
            (registerThenSearch typedSearchText 6)).any fun r' =>
              (r.1.zip r'.1).any fun pair =>
                decide ((pair.1.after.sessions ()).writer ≠
                  (pair.2.after.sessions ()).writer))
      (by decide +kernel)
  refine ⟨s, ⟨Server.market, [], none, _, _, calls, hserve⟩, fun h => ?_⟩
  obtain ⟨⟨es, t⟩, hrun, hp⟩ := (Option.any_eq_true _ _).mp hp
  obtain ⟨⟨es', t'⟩, hrun', hp⟩ := (Option.any_eq_true _ _).mp hp
  obtain ⟨⟨e, e'⟩, hmem, hne⟩ := List.any_eq_true.mp hp
  obtain ⟨es'', t'', hsecond, hsame⟩ :=
    h _ (sameButUnset_registerThenSearch typedSearchText 5 6) es t hrun
  rw [hrun'] at hsecond
  obtain ⟨rfl, rfl⟩ := Prod.mk.inj (Option.some.inj hsecond)
  exact of_decide_eq_true hne (List.forall₂_zip hsame hmem ())

end Crowd
end AuctionServer
