import AuctionServer.House.Lifecycle
import AuctionServer.House.Users
import AuctionServer.Session.Authentication

/-!
# A market with one user

What any number of sessions do to the server, the server does by its own calls,
one at most for each message, and whoever is logged in is the one user a login
is for.  Nobody buys from themselves, so what is listed over the wire is not
sold over the wire: the listings that are sold are those somebody else had
before.
-/

namespace AuctionServer

open AuctionServer.ClientSession (SearchesFor loginUser)
open Server (Closing Closes)
open Relation (ReflTransGen)

namespace Crowd

variable {ι : Type}

/-- Whoever is logged in is the user a login is for. -/
def Members (crowd : Crowd ι) : Prop :=
  ∀ i, (crowd.sessions i).authenticated = true →
    (crowd.sessions i).userId = loginUser

/-- The calls an input can lead to. -/
inductive Makes [JsonText] : CrowdInput ι → Call → Prop
  | search {i : ι} {message : Bytes} {o : MessageOutcomes}
      {criteria : SearchCriteria} (hmessage : SearchesFor message criteria) :
      Makes (.message i message o) (.searchItems o.search criteria)
  | register (i : ι) (message : Bytes) (o : MessageOutcomes) (item : Item)
      (price : UInt32) : Makes (.message i message o)
        (.registerItem o.register o.now loginUser item price)
  | purchase (i : ι) (message : Bytes) (o : MessageOutcomes)
      (auctionId : UInt64) : Makes (.message i message o)
        (.purchaseItem o.purchase o.now auctionId loginUser)
  | cancel (i : ι) (message : Bytes) (o : MessageOutcomes)
      (auctionId : UInt64) : Makes (.message i message o)
        (.cancelListing o.cancel auctionId loginUser)
  | expireKey (key : String) : Makes (.expireKey key) (.expireKey key)

/-- During the event the server makes one of these calls, or none. -/
structure Serves [StdSort] [JsonText] (e : Event ι) (calls : List Call) :
    Prop where
  few : calls.length ≤ 1
  makes : ∀ call ∈ calls, Makes e.input call
  run : ∃ events, Server.machine.run e.before.server calls =
    some (events, e.after.server)

section Steps

variable [StdSort] [JsonText]

/-- A deed for the user a login is for is a call of the server, or none. -/
theorem calls_of_deed {i : ι} {message : Bytes} {o : MessageOutcomes}
    {a b : Standing Server} (h : Deed (circumstances o) message a b)
    (hmember : a.authenticated = true → a.userId = loginUser) :
    ∃ calls : List Call, calls.length ≤ 1 ∧
      (∀ call ∈ calls, Makes (.message i message o) call) ∧
      ∃ events, Server.machine.run a.house calls = some (events, b.house) := by
  have hone : ∀ {call reply}, Makes (.message i message o) call →
      Server.machine.step a.house call = some (reply, b.house) →
      ∃ calls : List Call, calls.length ≤ 1 ∧
        (∀ call ∈ calls, Makes (.message i message o) call) ∧
        ∃ events, Server.machine.run a.house calls =
          some (events, b.house) := by
    intro call reply hmakes hstep
    refine ⟨[call], le_rfl, ?_, _, Machine.run_singleton hstep⟩
    intro call' hcall'
    rw [List.mem_singleton.mp hcall']
    exact hmakes
  cases h with
  | login haccepted hafter =>
      subst hafter
      exact ⟨[], Nat.zero_le 1, by simp, [], rfl⟩
  | search criteria hmessage hstep =>
      obtain ⟨r, hcall⟩ := hstep.call
      obtain ⟨⟨result, s'⟩, hsearch, heq⟩ := Option.map_eq_some_iff.mp hcall
      obtain ⟨-, rfl⟩ := Prod.mk.inj heq
      exact hone (.search hmessage)
        (Server.fires_searchItems.mpr ⟨result, hsearch, rfl⟩)
  | register item price hauth hstep =>
      obtain ⟨r, hcall⟩ := hstep.call
      rw [hmember hauth] at hcall
      exact hone (.register i message o item price)
        (Server.fires_registerItem.mpr
          ⟨rfl, (Prod.mk.inj (Option.some.inj hcall)).2⟩)
  | purchase auctionId hauth hstep =>
      obtain ⟨r, hcall⟩ := hstep.call
      rw [hmember hauth] at hcall
      exact hone (.purchase i message o auctionId)
        (Server.fires_purchaseItem.mpr
          ⟨rfl, (Prod.mk.inj (Option.some.inj hcall)).2⟩)
  | cancel auctionId hauth hstep =>
      obtain ⟨r, hcall⟩ := hstep.call
      rw [hmember hauth] at hcall
      exact hone (.cancel i message o auctionId)
        (Server.fires_cancelListing.mpr
          ⟨rfl, (Prod.mk.inj (Option.some.inj hcall)).2⟩)

/-- A deed leaves nobody logged in as anybody else. -/
theorem member_of_deed {message : Bytes} {o : MessageOutcomes}
    {a b : Standing Server} (h : Deed (circumstances o) message a b)
    (hmember : a.authenticated = true → a.userId = loginUser) :
    b.authenticated = true → b.userId = loginUser := by
  have hkept : ∀ {α : Type} {p : Program MessageException Server α},
      HouseStep p a b → b.authenticated = true → b.userId = loginUser := by
    intro α p hstep hauth
    rw [hstep.userId]
    exact hmember (hstep.authenticated ▸ hauth)
  cases h with
  | login haccepted hafter =>
      subst hafter
      intro _
      rfl
  | search criteria hmessage hstep => exact hkept hstep
  | register item price hauth hstep => exact hkept hstep
  | purchase auctionId hauth hstep => exact hkept hstep
  | cancel auctionId hauth hstep => exact hkept hstep

variable [DecidableEq ι]

/-- An event of the sessions is a call of the server, or none, and leaves nobody
logged in as anybody else. -/
theorem Members.step {e : Event ι} (hfires : machine.Fires e)
    (h : Members e.before) : Members e.after ∧ ∃ calls, Serves e calls := by
  obtain ⟨before, input, result, crowd⟩ := e
  replace h : Members before := h
  cases input with
  | message i message o =>
      obtain ⟨exchange, rfl, hdeed⟩ := fires_message hfires
      have hothers : (exchange.session.authenticated = true →
          exchange.session.userId = loginUser) →
          Members (before.after i exchange) := by
        intro hown j
        rcases eq_or_ne j i with rfl | hne
        · rw [after_session_self]
          exact hown
        · rw [after_session_of_ne before hne]
          exact h j
      rcases hdeed with hsame | hdeed
      · have huser : exchange.session.userId = (before.sessions i).userId :=
          congrArg Standing.userId hsame
        have hauth : exchange.session.authenticated =
            (before.sessions i).authenticated :=
          congrArg Standing.authenticated hsame
        have hhouse : exchange.house = before.server :=
          congrArg Standing.house hsame
        refine ⟨hothers ?_, [], Nat.zero_le 1, by simp, [], ?_⟩
        · rw [huser, hauth]
          exact h i
        · exact congrArg (fun s => some ([], s)) hhouse.symm
      · obtain ⟨calls, hfew, hmakes, hrun⟩ :=
          @calls_of_deed ι _ _ i message o _ _ hdeed (h i)
        exact ⟨hothers (member_of_deed hdeed (h i)), calls, hfew, hmakes, hrun⟩
  | expireKey key =>
      obtain rfl := fires_expireKey hfires
      refine ⟨h, [.expireKey key], le_rfl, ?_, _, Machine.run_singleton
        (Server.fires_expireKey.mpr ⟨rfl, rfl⟩)⟩
      intro call hcall
      rw [List.mem_singleton.mp hcall]
      exact .expireKey key

omit [JsonText] [StdSort] [DecidableEq ι] in
theorem members_start (s : Server) : Members (start s : Crowd ι) := by
  intro i hauth
  simp [start, ClientSession.initial] at hauth

/-- A run of the sessions is a run of the server. -/
theorem run_serves {crowd crowd' : Crowd ι} {inputs : List (CrowdInput ι)}
    {es : List (Event ι)} (hmembers : Members crowd)
    (hrun : machine.run crowd inputs = some (es, crowd')) :
    ∃ callss, List.Forall₂ Serves es callss ∧
      ∃ events, Server.machine.run crowd.server callss.flatten =
        some (events, crowd'.server) := by
  induction inputs generalizing crowd es with
  | nil =>
      obtain ⟨rfl, rfl⟩ := by simpa using hrun
      exact ⟨[], .nil, [], rfl⟩
  | cons input inputs ih =>
      obtain ⟨result, between, rest, hstep, hrest, rfl⟩ :=
        Machine.run_cons_cases hrun
      obtain ⟨hbetween, calls, hserves⟩ :=
        @Members.step ι _ _ _ ⟨crowd, input, result, between⟩ hstep hmembers
      obtain ⟨callss, hall, events', hrun'⟩ := ih hbetween hrest
      obtain ⟨events, hcalls⟩ := hserves.run
      refine ⟨calls :: callss, .cons hserves hall, events ++ events', ?_⟩
      rw [List.flatten_cons, Machine.run_append_eq_some]
      exact ⟨_, events, events', hcalls, hrun', rfl⟩

end Steps

/-! ## What is listed and what is sold -/

section Listings

variable [JsonText] {input : CrowdInput ι} {call : Call}

theorem Makes.inProcess (h : Makes input call) : call.InProcess := by
  cases h <;> trivial

/-- Only the user a login is for buys. -/
theorem Makes.buyerIn (h : Makes input call) : call.BuyerIn {loginUser} := by
  cases h with
  | purchase i message o auctionId => exact Set.mem_singleton loginUser
  | _ => trivial

omit [JsonText] in
/-- Nothing of theirs is sold to the only buyer. -/
theorem not_sold_of_closings {old new : AuctionItem}
    (h : ReflTransGen (Closing {loginUser}) old new)
    (hseller : old.sellerId = loginUser) (hopen : old.status ≠ .sold) :
    new.status ≠ .sold := by
  rcases Server.eq_or_closing h with rfl | hclosing
  · exact hopen
  · cases hclosing with
    | sold now hactive hother hbuyer =>
        rw [hseller, Set.mem_singleton_iff.mp hbuyer] at hother
        exact (hother rfl).elim
    | cancelled hactive => simp [Server.cancelledListing]
    | expired hactive => simp [Server.expiredListing]

/-- A listing was registered over the wire and is not sold, or it goes back to
one the server had before. -/
def Listed (s : Server) (id : UInt64) (item : AuctionItem) : Prop :=
  (item.sellerId = loginUser ∧ item.status ≠ .sold) ∨
    ∃ old, s.house.auctionItems[id]? = some old ∧
      ReflTransGen (Closing {loginUser}) old item

omit [JsonText] in
theorem Listed.closings {s : Server} {id : UInt64} {old new : AuctionItem}
    (h : Listed s id old) (hclosings : ReflTransGen (Closing {loginUser}) old new) :
    Listed s id new := by
  rcases h with ⟨hseller, hopen⟩ | ⟨first, hfirst, hearlier⟩
  · left
    refine ⟨?_, not_sold_of_closings hclosings hseller hopen⟩
    rw [(Server.sameOffer_of_closings hclosings).seller, hseller]
  · exact Or.inr ⟨first, hfirst, hearlier.trans hclosings⟩

omit [JsonText] in
/-- A listing that is sold was sold before, or somebody else had it on offer. -/
theorem Listed.sold {s : Server} {id : UInt64} {item : AuctionItem}
    (h : Listed s id item) (hsold : item.status = .sold) :
    s.house.auctionItems[id]? = some item ∨
      ∃ old, s.house.auctionItems[id]? = some old ∧ old.status = .active ∧
        old.sellerId ≠ loginUser ∧ Server.SameOffer old item ∧
        item.buyerId = loginUser := by
  rcases h with ⟨-, hopen⟩ | ⟨old, hold, hclosings⟩
  · exact (hopen hsold).elim
  · rcases Server.eq_or_closing hclosings with rfl | hclosing
    · exact Or.inl hold
    · right
      refine ⟨old, hold, hclosing.active, ?_, hclosing.sameOffer, ?_⟩
      · rintro hseller
        exact not_sold_of_closings hclosings hseller
          (by rw [hclosing.active]; decide) hsold
      · cases hclosing with
        | sold now hactive hother hbuyer => exact Set.mem_singleton_iff.mp hbuyer
        | cancelled hactive => simp [Server.cancelledListing] at hsold
        | expired hactive => simp [Server.expiredListing] at hsold

variable [StdSort]

/-- A call that is made over the wire keeps account of the listings. -/
theorem Makes.listed (h : Makes input call) {s before after : Server}
    {reply : Reply}
    (hfires : Server.machine.Fires ⟨before, call, reply, after⟩)
    (hwell : before.WellFiled)
    (hlisted : ∀ id item, before.house.auctionItems[id]? = some item →
      Listed s id item) :
    ∀ id item, after.house.auctionItems[id]? = some item →
      Listed s id item := by
  intro id item hitem
  cases hcall : call.isRegistration with
  | false =>
      have hcloses := @Server.step_closes {loginUser} _ _ hfires hwell
        h.inProcess h.buyerIn hcall
      obtain ⟨old, hold, hclosings⟩ := hcloses.entries.ancestor
        (show after.book.entries id = some item from hitem)
      exact (hlisted id old hold).closings hclosings
  | true =>
      cases h with
      | register i message o new price =>
          obtain ⟨-, rfl⟩ := Server.fires_registerItem.mp hfires
          obtain ⟨-, hsame | hnew⟩ := Server.registerItem_book before o.register
            o.now loginUser new price
          · rw [hsame] at hitem
            exact hlisted id item hitem
          · rw [hnew, Std.ExtTreeMap.getElem?_insert] at hitem
            split at hitem
            · obtain rfl := Option.some.inj hitem
              exact Or.inl ⟨rfl, by simp [Server.newListing]⟩
            · exact hlisted id item hitem
      | _ => cases hcall

/-! ## Whole runs -/

/-- Every listing belongs to the user a login is for. -/
def Owned (s : Server) : Prop :=
  ∀ (id : UInt64) (item : AuctionItem),
    s.house.auctionItems[id]? = some item → item.sellerId = loginUser

omit [JsonText] [StdSort] in
/-- While every listing is their own, a purchase is refused. -/
theorem Owned.purchaseItem {s : Server} (h : Owned s)
    (o : Server.PurchaseOutcomes) (now : Time) (auctionId : UInt64) :
    s.purchaseItem o now auctionId loginUser = (false, s) := by
  rw [Server.purchaseItem]
  split
  · rfl
  · next listing hlisting =>
      rw [if_pos (h auctionId listing hlisting), ite_self]

omit [JsonText] [StdSort] in
theorem Owned.listed {s s' : Server} (h : Owned s)
    (hlisted : ∀ id item, s'.house.auctionItems[id]? = some item →
      Listed s id item) : Owned s' := by
  intro id item hitem
  rcases hlisted id item hitem with ⟨hseller, -⟩ | ⟨old, hold, hclosings⟩
  · exact hseller
  · rw [(Server.sameOffer_of_closings hclosings).seller]
    exact h id old hold

/-- While every listing is their own, a call leaves the users as they are. -/
theorem Makes.users (h : Makes input call) {before after : Server}
    {reply : Reply}
    (hfires : Server.machine.Fires ⟨before, call, reply, after⟩)
    (hwell : before.WellFiled) (howned : Owned before) :
    after.db.users = before.db.users := by
  cases h with
  | purchase i message o auctionId =>
      obtain ⟨-, rfl⟩ := Server.fires_purchaseItem.mp hfires
      rw [howned.purchaseItem]
  | _ => exact Server.step_users hfires hwell (by simp)

/-- What a server inherits from an earlier one: its listings were registered
over the wire or go back to earlier ones, and while all of those are of the one
user, so are these, and nothing was paid. -/
structure Inherits (s t : Server) : Prop where
  wellFiled : t.WellFiled
  listed : ∀ id item, t.house.auctionItems[id]? = some item → Listed s id item
  users : Owned s → t.db.users = s.db.users

omit [JsonText] [StdSort] in
theorem Inherits.refl {s : Server} (hwell : s.WellFiled) : Inherits s s where
  wellFiled := hwell
  listed _ item hitem := Or.inr ⟨item, hitem, ReflTransGen.refl⟩
  users _ := rfl

theorem Inherits.run {s before after : Server} (h : Inherits s before)
    {calls : List Call} (hcalls : ∀ call ∈ calls, Makes input call)
    {events : List ServerEvent}
    (hrun : Server.machine.run before calls = some (events, after)) :
    Inherits s after := by
  have hkeep : Server.machine.Preserves (fun e => Makes input e.input)
      (Inherits s) := by
    rintro ⟨before, call, reply, after⟩ hfires hmakes h
    refine ⟨Server.wellFiled_preserves _ hfires trivial h.wellFiled,
      hmakes.listed hfires h.wellFiled h.listed, fun howned => ?_⟩
    exact (hmakes.users hfires h.wellFiled (howned.listed h.listed)).trans
      (h.users howned)
  exact (Machine.run_invariant hkeep hrun (fun e he =>
    hcalls e.input (Machine.run_input_mem hrun e he)) h).1

variable [DecidableEq ι]

/-- In every run of the sessions over a reachable server, a listing that is sold
was sold at the start, or somebody else had it on offer then and the one user has
bought it.  If nobody else had any listing at the start, nothing is ever paid and
every purchase is refused. -/
theorem nothing_sold {s : Server} (hreach : s.Reachable)
    {inputs : List (CrowdInput ι)} {es : List (Event ι)} {t : Crowd ι}
    (hrun : machine.run (start s) inputs = some (es, t)) :
    (∀ (id : UInt64) (item : AuctionItem),
      t.server.house.auctionItems[id]? = some item → item.status = .sold →
      s.house.auctionItems[id]? = some item ∨
        ∃ old, s.house.auctionItems[id]? = some old ∧ old.status = .active ∧
          old.sellerId ≠ loginUser ∧ Server.SameOffer old item ∧
          item.buyerId = loginUser) ∧
    (Owned s → Owned t.server ∧ t.server.db.users = s.db.users ∧
      ∀ o now auctionId,
        t.server.purchaseItem o now auctionId loginUser = (false, t.server)) := by
  have hkeep : Machine.Preserves (machine (ι := ι)) (fun _ => True)
      fun crowd => Members crowd ∧ Inherits s crowd.server := by
    rintro e hfires - ⟨hmembers, hinherits⟩
    obtain ⟨hafter, calls, hserves⟩ := hmembers.step hfires
    obtain ⟨events, hcalls⟩ := hserves.run
    exact ⟨hafter, hinherits.run hserves.makes hcalls⟩
  obtain ⟨-, hinherits⟩ := (Machine.run_invariant hkeep hrun
    (fun _ _ => trivial) ⟨members_start s, Inherits.refl hreach.wellFiled⟩).1
  refine ⟨fun id item hitem hsold => (hinherits.listed id item hitem).sold hsold,
    fun howned => ?_⟩
  have hlast := howned.listed hinherits.listed
  exact ⟨hlast, hinherits.users howned, hlast.purchaseItem⟩

end Listings

/-! ## A sale -/

/-- The market, and the user a login is for. -/
def visited : Database :=
  { Server.market with
    users := Server.market.users ++ [⟨1001, literal "eve", some 100⟩] }

/-- A login, and a purchase for which the store answers. -/
def sale : List (CrowdInput Bool) :=
  [.message false loginText default,
    .message false purchaseText
      { (default : MessageOutcomes) with
        purchase := ⟨.answered, ⟨.answered, .done⟩, ⟨.answered, .done⟩,
          ⟨.done, .done⟩, .answered⟩ }]

/-- What somebody else has listed is sold over the wire. -/
theorem exists_sale :
    ∃ s es t, @Server.Reachable StdSort.insertion s ∧
      (@machine Bool _ StdSort.insertion loginAndPurchase).run (start s) sale =
        some (es, t) ∧
      ∃ item, t.server.house.auctionItems[(1 : UInt64)]? = some item ∧
        item.status = .sold := by
  obtain ⟨calls, s, hserve, hsale⟩ :=
    @Server.exists_serve StdSort.insertion visited [] none (fun _ => .answered)
      [Server.offer "iron sword"]
      (fun _ s => ((@machine Bool _ StdSort.insertion loginAndPurchase).run
        (start s) sale).any fun (r : List (Event Bool) × Crowd Bool) =>
          (r.2.server.house.auctionItems[(1 : UInt64)]?).any
            fun (item : AuctionItem) => decide (item.status = .sold))
      (by decide +kernel)
  obtain ⟨⟨es, t⟩, hrun, hsold⟩ := (Option.any_eq_true _ _).mp hsale
  obtain ⟨item, hitem, hstatus⟩ := (Option.any_eq_true _ _).mp hsold
  exact ⟨s, es, t, ⟨visited, [], none, _, _, calls, hserve⟩, hrun, item, hitem,
    of_decide_eq_true hstatus⟩

theorem run_serves_sale :
    ∃ s es t, (@machine Bool _ StdSort.insertion loginAndPurchase).run (start s)
        sale = some (es, t) ∧
      ∃ callss, List.Forall₂ (@Serves Bool StdSort.insertion loginAndPurchase)
          es callss ∧
        ∃ events, (@Server.machine StdSort.insertion).run s callss.flatten =
          some (events, t.server) := by
  obtain ⟨s, es, t, -, hrun, -⟩ := exists_sale
  exact ⟨s, es, t, hrun, @run_serves Bool StdSort.insertion loginAndPurchase _ _ _
    sale es (members_start s) hrun⟩

theorem nothing_sold_sale :
    ∃ s es t, (@machine Bool _ StdSort.insertion loginAndPurchase).run (start s)
        sale = some (es, t) ∧
      ∃ item, t.server.house.auctionItems[(1 : UInt64)]? = some item ∧
        item.status = .sold ∧
        (s.house.auctionItems[(1 : UInt64)]? = some item ∨
          ∃ old, s.house.auctionItems[(1 : UInt64)]? = some old ∧
            old.status = .active ∧ old.sellerId ≠ loginUser ∧
            Server.SameOffer old item ∧ item.buyerId = loginUser) := by
  obtain ⟨s, es, t, hreach, hrun, item, hitem, hstatus⟩ := exists_sale
  exact ⟨s, es, t, hrun, item, hitem, hstatus,
    (@nothing_sold Bool loginAndPurchase StdSort.insertion _ s hreach sale es t
      hrun).1 1 item hitem hstatus⟩

end Crowd
end AuctionServer
