import AuctionServer.House.CacheBlind
import AuctionServer.Session.Deeds

/-!
# What sessions without a login can change

Any number of sessions share one auction house, and their messages are
processed in some order.  A session whose login was never accepted changes
nothing but the search cache, and nothing but a search reads that.  Whatever
changes in the house, or in a stored listing or balance, is changed for the
user of a session whose login was accepted before.
-/

namespace AuctionServer

open Program (Whichever)

/-- What the environment decides while a message is processed: the clock, the
fields nobody sets, and the outcomes of the store calls the message can lead
to. -/
structure MessageOutcomes where
  now : Time
  unset : UnsetItem
  register : Server.RegisterOutcomes
  search : SearchOutcomes
  purchase : Server.PurchaseOutcomes
  cancel : Server.CancelOutcomes
deriving Inhabited

/-- The call is made for the user. -/
def Call.ActsFor (user : UInt32) : Call → Prop
  | .registerItem _ _ sellerId _ _ => sellerId = user
  | .purchaseItem _ _ _ buyerId => buyerId = user
  | .cancelListing _ _ sellerId => sellerId = user
  | _ => False

namespace Server

/-- A result as a message sees it: no exception of a store is a parse error. -/
def seen {α : Type} (result : Except StoreException α) :
    Except MessageException α :=
  result.mapError fun _ => .other

/-- The operations of the auction house, with the given outcomes. -/
def calls [StdSort] (o : MessageOutcomes) : HouseCalls Server where
  registerItem sellerId item price := fun s =>
    let (result, s) := s.registerItem o.register o.now sellerId item price
    some (seen result, s)
  searchItems criteria := fun s =>
    (s.searchItems o.search criteria).map fun (result, s) => (seen result, s)
  purchaseItem auctionId buyerId := fun s =>
    let (result, s) := s.purchaseItem o.purchase o.now auctionId buyerId
    some (.ok result, s)
  cancelListing auctionId sellerId := fun s =>
    let (result, s) := s.cancelListing o.cancel auctionId sellerId
    some (seen result, s)

variable [StdSort] {o : MessageOutcomes} {s s' : Server}

/-- Two servers no session can tell apart by what it changes. -/
structure Indistinct (s t : Server) : Prop where
  wellFiled : s.WellFiled
  same : s.SameButCache t

omit [StdSort] in
theorem WellFiled.indistinct (h : s.WellFiled) : s.Indistinct s :=
  ⟨h, SameButCache.refl s⟩

/-- The operations do not tell indistinct servers apart, as long as searches
have their price bounds in order. -/
theorem calls_relate (o : MessageOutcomes)
    {criteria : SearchCriteria → Prop}
    (hprices : ∀ c, criteria c → c.PricesOrdered) :
    (calls o).Relate Indistinct criteria where
  registerItem sellerId item price := by
    intro s t (h : s.Indistinct t)
    refine ⟨_, _, _, _, rfl, rfl, trivial, ?_, h.same.registerItem _ _ _ _ _⟩
    exact wellFiled_preserves ⟨s, _, _, _⟩ (fires_registerItem.mpr ⟨rfl, rfl⟩)
      trivial h.wellFiled
  searchItems c hc := by
    intro s t (h : s.Indistinct t)
    have htwell := h.same.wellFiled h.wellFiled
    obtain ⟨result, s', hsearch, hs'⟩ :=
      h.wellFiled.searchItems_defined o.search (hprices c hc)
    obtain ⟨result', t', hsearch', ht'⟩ :=
      htwell.searchItems_defined o.search (hprices c hc)
    refine ⟨seen result, s', seen result', t', ?_, ?_, trivial,
      hs'.wellFiled h.wellFiled, hs'.symm.trans (h.same.trans ht')⟩
    · simp [calls, hsearch]
    · simp [calls, hsearch']
  purchaseItem auctionId buyerId := by
    intro s t (h : s.Indistinct t)
    refine ⟨_, _, _, _, rfl, rfl, trivial, ?_, h.same.purchaseItem _ _ _ _⟩
    exact wellFiled_preserves ⟨s, _, _, _⟩ (fires_purchaseItem.mpr ⟨rfl, rfl⟩)
      trivial h.wellFiled
  cancelListing auctionId sellerId := by
    intro s t (h : s.Indistinct t)
    refine ⟨_, _, _, _, rfl, rfl, trivial, ?_, h.same.cancelListing _ _ _⟩
    exact wellFiled_preserves ⟨s, _, _, _⟩ (fires_cancelListing.mpr ⟨rfl, rfl⟩)
      trivial h.wellFiled

end Server

/-! ## Many sessions over one house -/

/-- The sessions, and the server behind them. -/
structure Crowd (ι : Type) where
  sessions : ι → ClientSession
  server : Server

/-- A message of a session is processed, or a cache entry reaches the end of
its lifetime. -/
inductive CrowdInput (ι : Type) where
  | message (i : ι) (message : Bytes) (o : MessageOutcomes)
  | expireKey (key : String)

namespace Crowd

variable {ι : Type} [DecidableEq ι]

/-- New sessions over a server. -/
def start (s : Server) : Crowd ι where
  sessions := fun _ => ClientSession.initial
  server := s

/-- What a session and the server are to its messages. -/
def exchange (crowd : Crowd ι) (i : ι) : Exchange Server where
  session := crowd.sessions i
  house := crowd.server

/-- The crowd after an exchange of one of its sessions. -/
def after (crowd : Crowd ι) (i : ι) (exchange : Exchange Server) : Crowd ι where
  sessions := Function.update crowd.sessions i exchange.session
  server := exchange.house

/-- The input is a login of the session that is accepted. -/
def logsIn [JsonText] (i : ι) : CrowdInput ι → Bool
  | .message j message _ => decide (j = i) && acceptsLogin message
  | .expireKey _ => false

/-- The session sends an accepted login at some time. -/
def isMember [JsonText] (inputs : List (CrowdInput ι)) (i : ι) : Bool :=
  inputs.any (logsIn i)

/-- The input is no message of a session that never sends an accepted login. -/
def fromMember [JsonText] (inputs : List (CrowdInput ι)) : CrowdInput ι → Bool
  | .message i _ _ => isMember inputs i
  | .expireKey _ => true

/-- If the input is a search its price bounds are in order. -/
def PricesOrdered [JsonText] : CrowdInput ι → Prop
  | .message _ message _ => ∀ criteria,
      ClientSession.SearchesFor message criteria → criteria.PricesOrdered
  | .expireKey _ => True

variable [StdSort] [JsonText]

/-- What a message meets, given the outcomes. -/
def circumstances (o : MessageOutcomes) : Circumstances Server where
  house := Server.calls o
  now := o.now
  unset := o.unset

/-- One step of the crowd. -/
def step (crowd : Crowd ι) :
    CrowdInput ι → Option (Except MessageException Unit × Crowd ι)
  | .message i message o =>
      (ClientSession.processMessage (circumstances o) message
        (crowd.exchange i)).map fun (result, exchange) =>
          (result, crowd.after i exchange)
  | .expireKey key =>
      some (.ok (), { crowd with server := crowd.server.expireKey key })

/-- The crowd as a machine driven by messages. -/
def machine : Machine (Crowd ι) (CrowdInput ι) (Except MessageException Unit) where
  step := step

/-- A recorded step with the states around it. -/
abbrev Event (ι : Type) : Type :=
  Machine.Event (Crowd ι) (CrowdInput ι) (Except MessageException Unit)

/-! ## One message -/

omit [DecidableEq ι] [JsonText] in
/-- A search changes the cache at most. -/
theorem search_sameButCache {o : MessageOutcomes} {criteria : SearchCriteria}
    {a b : Standing Server} (hwell : a.house.WellFiled)
    (hstep : HouseStep ((circumstances o).house.searchItems criteria) a b) :
    a.house.SameButCache b.house := by
  obtain ⟨r, hcall⟩ := hstep.call
  obtain ⟨⟨result, s'⟩, hsearch, heq⟩ := Option.map_eq_some_iff.mp hcall
  obtain ⟨-, rfl⟩ := Prod.mk.inj heq
  exact hwell.searchItems_frame hsearch

omit [DecidableEq ι] [StdSort] [JsonText] in
theorem sameButCache_expireKey (s : Server) (key : String) :
    s.SameButCache (s.expireKey key) :=
  ⟨s.db.redis.erase key, rfl⟩

/-- A message of a session without a login changes the cache at most, unless it
is a login that is accepted. -/
theorem deed_of_not_authenticated {o : MessageOutcomes} {message : Bytes}
    {a b : Standing Server} (hwell : a.house.WellFiled)
    (hauth : a.authenticated = false) (hlogin : acceptsLogin message = false)
    (h : Deed (circumstances o) message a b) :
    a.house.SameButCache b.house ∧ b.authenticated = false := by
  cases h with
  | login haccepted hafter => simp [hlogin] at haccepted
  | search criteria hmessage hstep =>
      exact ⟨search_sameButCache hwell hstep, hstep.authenticated.trans hauth⟩
  | register item price hauth' => simp [hauth] at hauth'
  | purchase auctionId hauth' => simp [hauth] at hauth'
  | cancel auctionId hauth' => simp [hauth] at hauth'

/-- A message that changes more than the cache makes a call for the user its
session is logged in as. -/
theorem deed_acts {o : MessageOutcomes} {message : Bytes} {a b : Standing Server}
    (hwell : a.house.WellFiled) (h : Deed (circumstances o) message a b)
    (hchanges : ¬ a.house.SameButCache b.house) :
    a.authenticated = true ∧ ∃ call reply, Call.ActsFor a.userId call ∧
      Server.machine.Fires ⟨a.house, call, reply, b.house⟩ := by
  cases h with
  | login haccepted hafter =>
      subst hafter
      exact (hchanges (Server.SameButCache.refl _)).elim
  | search criteria hmessage hstep =>
      exact (hchanges (search_sameButCache hwell hstep)).elim
  | register item price hauth hstep =>
      obtain ⟨r, hcall⟩ := hstep.call
      exact ⟨hauth, .registerItem o.register o.now a.userId item price, _, rfl,
        Server.fires_registerItem.mpr
          ⟨rfl, (Prod.mk.inj (Option.some.inj hcall)).2⟩⟩
  | purchase auctionId hauth hstep =>
      obtain ⟨r, hcall⟩ := hstep.call
      exact ⟨hauth, .purchaseItem o.purchase o.now auctionId a.userId, _, rfl,
        Server.fires_purchaseItem.mpr
          ⟨rfl, (Prod.mk.inj (Option.some.inj hcall)).2⟩⟩
  | cancel auctionId hauth hstep =>
      obtain ⟨r, hcall⟩ := hstep.call
      exact ⟨hauth, .cancelListing o.cancel auctionId a.userId, _, rfl,
        Server.fires_cancelListing.mpr
          ⟨rfl, (Prod.mk.inj (Option.some.inj hcall)).2⟩⟩

/-- Processing a message is a deed, or nothing. -/
theorem fires_message {crowd crowd' : Crowd ι} {i : ι} {message : Bytes}
    {o : MessageOutcomes} {result : Except MessageException Unit}
    (h : machine.Fires ⟨crowd, .message i message o, result, crowd'⟩) :
    ∃ exchange, crowd' = crowd.after i exchange ∧
      (ClientSession.standing exchange = ClientSession.standing (crowd.exchange i) ∨
        Deed (circumstances o) message
          (ClientSession.standing (crowd.exchange i))
          (ClientSession.standing exchange)) := by
  change crowd.step (.message i message o) = some (result, crowd') at h
  obtain ⟨⟨r, exchange⟩, hprocess, heq⟩ := Option.map_eq_some_iff.mp h
  obtain ⟨-, rfl⟩ := Prod.mk.inj heq
  exact ⟨exchange, rfl, ClientSession.processMessage_deed hprocess⟩

theorem fires_expireKey {crowd crowd' : Crowd ι} {key : String}
    {result : Except MessageException Unit}
    (h : machine.Fires ⟨crowd, .expireKey key, result, crowd'⟩) :
    crowd' = { crowd with server := crowd.server.expireKey key } :=
  (Prod.mk.inj (Option.some.inj h)).2.symm

/-! ## A run and the run without strangers -/

omit [StdSort] [JsonText] in
theorem after_session_self (crowd : Crowd ι) (i : ι)
    (exchange : Exchange Server) :
    (crowd.after i exchange).sessions i = exchange.session := by
  simp [after]

omit [StdSort] [JsonText] in
theorem after_session_of_ne (crowd : Crowd ι) {i j : ι} (hne : j ≠ i)
    (exchange : Exchange Server) :
    (crowd.after i exchange).sessions j = crowd.sessions j := by
  simp [after, hne]

/-- Two crowds the members cannot tell apart, in the first of which nobody but
members is logged in. -/
structure Alike (member : ι → Bool) (crowd crowd' : Crowd ι) : Prop where
  server : crowd.server.Indistinct crowd'.server
  members : ∀ i, member i = true →
    (crowd.sessions i).userId = (crowd'.sessions i).userId ∧
      (crowd.sessions i).authenticated = (crowd'.sessions i).authenticated
  strangers : ∀ i, member i = false → (crowd.sessions i).authenticated = false

variable {member : ι → Bool} {crowd crowd' : Crowd ι}

omit [DecidableEq ι] in
theorem relate_circumstances {i : ι} {message : Bytes} {o : MessageOutcomes}
    (hprices : PricesOrdered (.message i message o)) :
    (circumstances o).house.Relate Server.Indistinct
      (ClientSession.SearchesFor message) :=
  Server.calls_relate o hprices

/-- A message of a member is processed in both. -/
theorem Alike.message_member (h : Alike member crowd crowd') {i : ι} {message : Bytes}
    {o : MessageOutcomes}
    (hprices : PricesOrdered (.message i message o)) (hi : member i = true) :
    ∃ r t r' t', crowd.step (.message i message o) = some (r, t) ∧
      crowd'.step (.message i message o) = some (r', t') ∧ Alike member t t' := by
  obtain ⟨huser, hauth⟩ := h.members i hi
  obtain ⟨r, x, r', x', hrun, hrun', -, halike⟩ :=
    ClientSession.alike_processMessage (relate_circumstances hprices)
      (crowd.exchange i) (crowd'.exchange i) ⟨huser, hauth, h.server⟩
  refine ⟨r, crowd.after i x, r', crowd'.after i x', by simp [step, hrun],
    by simp [step, hrun'], halike.house, ?_, ?_⟩
  · intro j hj
    rcases eq_or_ne j i with rfl | hne
    · rw [after_session_self, after_session_self]
      exact ⟨halike.userId, halike.authenticated⟩
    · rw [after_session_of_ne _ hne, after_session_of_ne _ hne]
      exact h.members j hj
  · intro j hj
    have hne : j ≠ i := fun heq => by simp [heq, hi] at hj
    rw [after_session_of_ne _ hne]
    exact h.strangers j hj

/-- A message of a stranger is processed, and leaves nothing for the members to
see. -/
theorem Alike.message_stranger (h : Alike member crowd crowd') {i : ι} {message : Bytes}
    {o : MessageOutcomes}
    (hprices : PricesOrdered (.message i message o)) (hi : member i = false)
    (hlogin : acceptsLogin message = false) :
    ∃ r t, crowd.step (.message i message o) = some (r, t) ∧
      Alike member t crowd' := by
  have hwell := h.server.wellFiled
  obtain ⟨r, x, r', x', hrun, -, -, halike⟩ :=
    ClientSession.alike_processMessage (relate_circumstances hprices)
      (crowd.exchange i) (crowd.exchange i) ⟨rfl, rfl, hwell.indistinct⟩
  have hquiet : crowd.server.SameButCache x.house ∧
      x.session.authenticated = false := by
    have hauth := h.strangers i hi
    rcases ClientSession.processMessage_deed hrun with hsame | hdeed
    · have hhouse : x.house = crowd.server := congrArg Standing.house hsame
      have hsession : x.session.authenticated =
          (crowd.sessions i).authenticated :=
        congrArg Standing.authenticated hsame
      rw [hhouse, hsession]
      exact ⟨Server.SameButCache.refl _, hauth⟩
    · exact deed_of_not_authenticated hwell hauth hlogin hdeed
  obtain ⟨hsame, hauth⟩ := hquiet
  refine ⟨r, crowd.after i x, by simp [step, hrun],
    ⟨halike.house.wellFiled, hsame.symm.trans h.server.same⟩, ?_, ?_⟩
  · intro j hj
    have hne : j ≠ i := fun heq => by simp [heq, hi] at hj
    rw [after_session_of_ne _ hne]
    exact h.members j hj
  · intro j hj
    rcases eq_or_ne j i with rfl | hne
    · rw [after_session_self]
      exact hauth
    · rw [after_session_of_ne _ hne]
      exact h.strangers j hj

omit [DecidableEq ι] [StdSort] [JsonText] in
/-- An entry that expires in both caches. -/
theorem Alike.expireKey (h : Alike member crowd crowd') (key : String) :
    Alike member { crowd with server := crowd.server.expireKey key }
      { crowd' with server := crowd'.server.expireKey key } := by
  have hexpire := sameButCache_expireKey crowd.server key
  have hexpire' := sameButCache_expireKey crowd'.server key
  have hsame := hexpire.symm.trans (h.server.same.trans hexpire')
  exact ⟨⟨hexpire.wellFiled h.server.wellFiled, hsame⟩, h.members, h.strangers⟩

omit [StdSort] in
theorem acceptsLogin_of_not_isMember {inputs : List (CrowdInput ι)} {i : ι}
    {message : Bytes} {o : MessageOutcomes}
    (hmem : .message i message o ∈ inputs) (hi : isMember inputs i = false) :
    acceptsLogin message = false := by
  have hno := List.any_eq_false.mp hi _ hmem
  simpa [logsIn] using hno

/-- Without the messages of the strangers the run ends with the same house, the
same listings and the same balances. -/
theorem run_without_strangers {s : Server} (hwell : s.WellFiled)
    {inputs : List (CrowdInput ι)}
    (hprices : ∀ input ∈ inputs, PricesOrdered input) :
    ∃ es t es' t', machine.run (start s) inputs = some (es, t) ∧
      machine.run (start s) (inputs.filter (fromMember inputs)) =
        some (es', t') ∧ Alike (isMember inputs) t t' := by
  have hstart : Alike (isMember inputs) (start s : Crowd ι) (start s) :=
    ⟨hwell.indistinct, fun _ _ => ⟨rfl, rfl⟩, fun _ _ => rfl⟩
  refine Machine.run_filter (P := fun input => input ∈ inputs) ?_ ?_
    (fun _ h => h) hstart
  · intro crowd crowd' input h hmem hkeep
    cases input with
    | message i message o =>
        exact h.message_member (hprices _ hmem) hkeep
    | expireKey key => exact ⟨_, _, _, _, rfl, rfl, h.expireKey key⟩
  · intro crowd crowd' input h hmem hkeep
    cases input with
    | message i message o =>
        exact h.message_stranger (hprices _ hmem) hkeep
          (acceptsLogin_of_not_isMember hmem hkeep)
    | expireKey key => cases hkeep

/-! ## Who changes what -/

/-- Every session that is authenticated was logged in before, as the user it
still is. -/
def LoggedIn (past : List (Event ι)) (crowd : Crowd ι) : Prop :=
  crowd.server.WellFiled ∧ ∀ i, (crowd.sessions i).authenticated = true →
    ∃ e ∈ past, logsIn i e.input = true ∧
      (e.after.sessions i).authenticated = true ∧
      (e.after.sessions i).userId = (crowd.sessions i).userId

theorem LoggedIn.message {past : List (Event ι)} {before : Crowd ι} {i : ι}
    {message : Bytes} {o : MessageOutcomes}
    {result : Except MessageException Unit} {exchange : Exchange Server}
    (h : LoggedIn past before)
    (hdeed : ClientSession.standing exchange =
        ClientSession.standing (before.exchange i) ∨
      Deed (circumstances o) message
        (ClientSession.standing (before.exchange i))
        (ClientSession.standing exchange)) :
    LoggedIn
      (past ++ [⟨before, .message i message o, result, before.after i exchange⟩])
      (before.after i exchange) := by
  obtain ⟨hwell, hlogins⟩ := h
  have hearlier : ∀ j userId, (∃ e ∈ past, logsIn j e.input = true ∧
      (e.after.sessions j).authenticated = true ∧
      (e.after.sessions j).userId = userId) →
      ∃ e ∈ past ++ [⟨before, .message i message o, result,
          before.after i exchange⟩], logsIn j e.input = true ∧
        (e.after.sessions j).authenticated = true ∧
        (e.after.sessions j).userId = userId := by
    rintro j userId ⟨e, he, hlogin⟩
    exact ⟨e, List.mem_append_left _ he, hlogin⟩
  constructor
  · rcases hdeed with hsame | hdeed
    · have hhouse : exchange.house = before.server :=
        congrArg Standing.house hsame
      change exchange.house.WellFiled
      rw [hhouse]
      exact hwell
    · by_cases hsame : before.server.SameButCache exchange.house
      · exact hsame.wellFiled hwell
      · obtain ⟨-, call, reply, -, hfires⟩ := deed_acts hwell hdeed hsame
        exact Server.wellFiled_preserves _ hfires trivial hwell
  · intro j hauth
    rcases eq_or_ne j i with rfl | hne
    · rw [after_session_self] at hauth ⊢
      have hkept : exchange.session.userId = (before.sessions j).userId →
          exchange.session.authenticated =
            (before.sessions j).authenticated → _ := fun huser hsame =>
        huser ▸ hearlier j _ (hlogins j (hsame ▸ hauth))
      rcases hdeed with hsame | hdeed
      · exact hkept (congrArg Standing.userId hsame)
          (congrArg Standing.authenticated hsame)
      · rcases hdeed.login_or_kept with ⟨haccepted, -⟩ | ⟨huser, hsame⟩
        · -- The message is the login itself.
          refine ⟨_, List.mem_append_right _ (List.mem_singleton_self _), ?_, ?_, ?_⟩
          · simp [logsIn, haccepted]
          · rw [after_session_self]
            exact hauth
          · rw [after_session_self]
        · exact hkept huser hsame
    · rw [after_session_of_ne _ hne] at hauth ⊢
      exact hearlier j _ (hlogins j hauth)

theorem LoggedIn.step {past : List (Event ι)} {e : Event ι}
    (hfires : machine.Fires e) (h : LoggedIn past e.before) :
    LoggedIn (past ++ [e]) e.after := by
  obtain ⟨before, input, result, crowd⟩ := e
  cases input with
  | message i message o =>
      obtain ⟨exchange, rfl, hdeed⟩ := fires_message hfires
      exact h.message hdeed
  | expireKey key =>
      obtain rfl := fires_expireKey hfires
      refine ⟨(sameButCache_expireKey _ key).wellFiled h.1, ?_⟩
      intro i hauth
      obtain ⟨e, he, hlogin⟩ := h.2 i hauth
      exact ⟨e, List.mem_append_left _ he, hlogin⟩

/-- The event changes the house, a stored listing or a stored balance. -/
def Changes (e : Event ι) : Prop :=
  e.after.server.house ≠ e.before.server.house ∨
    e.after.server.db.auctions ≠ e.before.server.db.auctions ∨
      e.after.server.db.users ≠ e.before.server.db.users

omit [DecidableEq ι] [JsonText] [StdSort] in
theorem Changes.not_sameButCache {e : Event ι} (h : Changes e) :
    ¬ e.before.server.SameButCache e.after.server := by
  intro hsame
  obtain ⟨hhouse, hstores⟩ := Server.sameButCache_iff.mp hsame
  rcases h with hne | hne | hne
  · exact hne hhouse
  · exact hne hstores.auctions
  · exact hne hstores.users

/-- Sessions that never send an accepted login change nothing: without their
messages the run ends with the same house, the same stored listings and the
same balances.  And whatever changes is changed by a call for the user that an
earlier accepted login of the same session has set. -/
theorem only_members_change {s : Server} (hreach : s.Reachable)
    {inputs : List (CrowdInput ι)}
    (hprices : ∀ input ∈ inputs, PricesOrdered input) :
    ∃ es t es' t', machine.run (start s) inputs = some (es, t) ∧
      machine.run (start s) (inputs.filter (fromMember inputs)) =
        some (es', t') ∧
      t'.server.house = t.server.house ∧
      t'.server.db.auctions = t.server.db.auctions ∧
      t'.server.db.users = t.server.db.users ∧
      ∀ past e rest, es = past ++ e :: rest → Changes e →
        ∃ i message o, e.input = .message i message o ∧
          (e.before.sessions i).authenticated = true ∧
          (∃ login ∈ past, logsIn i login.input = true ∧
            (login.after.sessions i).userId = (e.before.sessions i).userId) ∧
          ∃ call reply, Call.ActsFor (e.before.sessions i).userId call ∧
            Server.machine.Fires
              ⟨e.before.server, call, reply, e.after.server⟩ := by
  obtain ⟨es, t, es', t', hrun, hrun', halike⟩ :=
    run_without_strangers hreach.wellFiled hprices
  obtain ⟨hhouse, hstores⟩ := Server.sameButCache_iff.mp halike.server.same
  refine ⟨es, t, es', t', hrun, hrun', hhouse, hstores.auctions, hstores.users, ?_⟩
  intro past e rest hsplit hchanges
  have hstart : LoggedIn ([] : List (Event ι)) (start s) :=
    ⟨hreach.wellFiled, fun i hauth => by simp [start, ClientSession.initial] at hauth⟩
  obtain ⟨hwell, hlogins⟩ := (Machine.run_history (G := fun _ => True)
    (fun _ _ hfires _ h => LoggedIn.step hfires h) hrun (fun _ _ => trivial)
    hstart).2 past e rest hsplit
  have hfires := Machine.run_fires hrun e (by simp [hsplit])
  have hnot := hchanges.not_sameButCache
  obtain ⟨before, input, result, after⟩ := e
  cases input with
  | message i message o =>
      obtain ⟨exchange, rfl, hsame | hdeed⟩ := fires_message hfires
      · have hkept : exchange.house = before.server :=
          congrArg Standing.house hsame
        exact (hnot ⟨exchange.house.db.redis, by
          change exchange.house = _
          rw [hkept]⟩).elim
      · obtain ⟨hauth, hcall⟩ := deed_acts hwell hdeed hnot
        obtain ⟨login, hmem, hlogin, -, huser⟩ := hlogins i hauth
        exact ⟨i, message, o, rfl, hauth, ⟨login, hmem, hlogin, huser⟩, hcall⟩
  | expireKey key =>
      obtain rfl := fires_expireKey hfires
      exact (hnot (sameButCache_expireKey _ key)).elim

/-! ## A login and a stranger -/

/-- The type of a message, if it has one. -/
def typeOf (message : Bytes) : Option Bytes :=
  match JsonText.parse message with
  | .ok data => (data.field "type").bind Json.getString
  | .error _ => none

omit [DecidableEq ι] [StdSort] in
theorem pricesOrdered_of_typeOf {i : ι} {message : Bytes} {o : MessageOutcomes}
    (h : typeOf message ≠ some (literal "search_items")) :
    PricesOrdered (.message i message o) := by
  rintro criteria ⟨data, hparse, htype, -⟩
  refine absurd ?_ h
  rw [typeOf, hparse]
  simp [htype, ClientSession.text, Json.getString]

/-- The text of a login. -/
def loginText : Bytes :=
  literal ("\x7b\"type\":\"login\",\"username\":\"user123\"," ++
    "\"password\":\"password123\"\x7d")

/-- The text of a purchase. -/
def purchaseText : Bytes :=
  literal "\x7b\"type\":\"purchase_item\",\"auction_id\":1\x7d"

/-- A parser that knows the two. -/
@[reducible] def loginAndPurchase : JsonText :=
  JsonText.sample
    [(loginText, .object
        [("type", ClientSession.text "login"),
          ("username", ClientSession.text "user123"),
          ("password", ClientSession.text "password123")]),
      (purchaseText, .object
        [("type", ClientSession.text "purchase_item"),
          ("auction_id", .integer 1)])]

/-- A stranger tries a purchase, and another session logs in and buys. -/
def visit : List (CrowdInput Bool) :=
  [.message true purchaseText default, .message false loginText default,
    .message false purchaseText default]

omit [DecidableEq ι] [StdSort] [JsonText] in
/-- The login and the attempt of the stranger. -/
theorem only_members_change_market :
    ∃ s es t es' t', @Server.Reachable StdSort.insertion s ∧
      (@machine Bool _ StdSort.insertion loginAndPurchase).run (start s) visit =
        some (es, t) ∧
      (@machine Bool _ StdSort.insertion loginAndPurchase).run (start s)
          (visit.filter (@fromMember Bool _ loginAndPurchase visit)) =
        some (es', t') ∧
      t'.server.house = t.server.house := by
  obtain ⟨calls, s, hserve, -⟩ :=
    @Server.exists_serve StdSort.insertion Server.market [] none
      (fun _ => .answered) [Server.offer "iron sword"] (fun _ _ => true)
      (by decide)
  have hreach : @Server.Reachable StdSort.insertion s :=
    ⟨Server.market, [], none, _, _, calls, hserve⟩
  have htypes : ∀ message ∈ [loginText, purchaseText],
      @typeOf loginAndPurchase message ≠ some (literal "search_items") := by decide
  have hprices : ∀ input ∈ visit,
      @PricesOrdered Bool loginAndPurchase input := by
    intro input hinput
    simp only [visit, List.mem_cons, List.not_mem_nil, or_false] at hinput
    rcases hinput with rfl | rfl | rfl
    · exact @pricesOrdered_of_typeOf Bool loginAndPurchase _ _ _
        (htypes purchaseText (by simp))
    · exact @pricesOrdered_of_typeOf Bool loginAndPurchase _ _ _
        (htypes loginText (by simp))
    · exact @pricesOrdered_of_typeOf Bool loginAndPurchase _ _ _
        (htypes purchaseText (by simp))
  obtain ⟨es, t, es', t', hrun, hrun', hhouse, -⟩ :=
    @only_members_change Bool _ StdSort.insertion loginAndPurchase s hreach visit
      hprices
  exact ⟨s, es, t, es', t', hreach, hrun, hrun', hhouse⟩

end Crowd
end AuctionServer
