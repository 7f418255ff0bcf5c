import AuctionServer.House.Disposal
import AuctionServer.Support.Evolution

/-!
# The life of a listing

Within one process a listing is registered once, keeps everything it was
registered with except the owner of its item, and is closed at most once, by
being sold, cancelled or expired.  Whatever the store does, a call either uses
up one id or only closes listings.
-/

namespace AuctionServer

open Evolution (Evolves)
open AuctionHouse (SameListings)
open Relation (ReflTransGen)

/-- The call registers an item. -/
def Call.isRegistration : Call → Bool
  | .registerItem _ _ _ _ _ => true
  | _ => false

/-- If the call is a purchase, its buyer is one of these. -/
def Call.BuyerIn (buyers : Set UInt32) : Call → Prop
  | .purchaseItem _ _ _ buyerId => buyerId ∈ buyers
  | _ => True

namespace Server

/-! ## Closing -/

/-- The three ways of closing a listing, when only these users buy. -/
inductive Closing (buyers : Set UInt32) : AuctionItem → AuctionItem → Prop
  | sold {listing : AuctionItem} {buyerId : UInt32} (now : Time)
      (hactive : listing.status = .active) (hother : listing.sellerId ≠ buyerId)
      (hbuyer : buyerId ∈ buyers) :
      Closing buyers listing (soldListing listing buyerId now)
  | cancelled {listing : AuctionItem} (hactive : listing.status = .active) :
      Closing buyers listing (cancelledListing listing)
  | expired {listing : AuctionItem} (hactive : listing.status = .active) :
      Closing buyers listing (expiredListing listing)

variable {buyers : Set UInt32}

theorem Closing.active {old new : AuctionItem} (h : Closing buyers old new) :
    old.status = .active := by
  cases h with
  | sold now hactive _ _ => exact hactive
  | cancelled hactive => exact hactive
  | expired hactive => exact hactive

theorem Closing.closed {old new : AuctionItem} (h : Closing buyers old new) :
    new.status ≠ .active := by
  cases h with
  | sold now _ _ _ => simp [soldListing]
  | cancelled _ => simp [cancelledListing]
  | expired _ => simp [expiredListing]

/-- A listing is closed at most once. -/
theorem eq_or_closing {old new : AuctionItem}
    (h : ReflTransGen (Closing buyers) old new) : new = old ∨ Closing buyers old new := by
  induction h with
  | refl => exact Or.inl rfl
  | tail _ hclosing ih =>
      rcases ih with rfl | hearlier
      · exact Or.inr hclosing
      · exact (hearlier.closed hclosing.active).elim

/-- What a listing keeps for ever: everything but its status, its buyer, the
time of its sale and the owner of its item. -/
structure SameOffer (old new : AuctionItem) : Prop where
  id : new.id = old.id
  seller : new.sellerId = old.sellerId
  price : new.price = old.price
  registrationTime : new.registrationTime = old.registrationTime
  expirationTime : new.expirationTime = old.expirationTime
  item : new.item = { old.item with ownerId := new.item.ownerId }

theorem SameOffer.refl (item : AuctionItem) : SameOffer item item :=
  ⟨rfl, rfl, rfl, rfl, rfl, rfl⟩

theorem Closing.sameOffer {old new : AuctionItem} (h : Closing buyers old new) :
    SameOffer old new := by
  cases h with
  | sold now _ _ _ => exact ⟨rfl, rfl, rfl, rfl, rfl, rfl⟩
  | cancelled _ => exact ⟨rfl, rfl, rfl, rfl, rfl, rfl⟩
  | expired _ => exact ⟨rfl, rfl, rfl, rfl, rfl, rfl⟩

theorem sameOffer_of_closings {old new : AuctionItem}
    (h : ReflTransGen (Closing buyers) old new) : SameOffer old new := by
  rcases eq_or_closing h with rfl | hclosing
  · exact SameOffer.refl new
  · exact hclosing.sameOffer

/-! ## Calls that only close -/

/-- No id is assigned, and listings are only closed. -/
structure Closes (buyers : Set UInt32) (s s' : Server) : Prop where
  entries : Evolves (Closing buyers) s.book.entries s'.book.entries
  next : s'.house.nextAuctionId = s.house.nextAuctionId

variable {s s' s'' : Server}

theorem Closes.of_same (h : SameListings s.house s'.house) : Closes buyers s s' := by
  refine ⟨?_, h.2⟩
  have hentries : s'.book.entries = s.book.entries := by
    simp only [book, h.1]
  rw [hentries]
  exact Evolves.refl

theorem Closes.refl (s : Server) : Closes buyers s s :=
  Closes.of_same ⟨rfl, rfl⟩

theorem Closes.trans (h : Closes buyers s s') (h' : Closes buyers s' s'') :
    Closes buyers s s'' :=
  ⟨h.entries.trans h'.entries, h'.next.trans h.next⟩

theorem Closes.setItem {id : UInt64} {old new : AuctionItem}
    (hold : s.house.auctionItems[id]? = some old) (hclosing : Closing buyers old new)
    (hhouse : s'.house = s.house.setItem id new) : Closes buyers s s' := by
  refine ⟨?_, by rw [hhouse]; rfl⟩
  have hentries : s'.book.entries =
      Function.update s.book.entries id (some new) := by
    rw [← entries_insert]
    simp only [book, hhouse, AuctionHouse.setItem]
  rw [hentries]
  exact Evolves.single (show s.book.entries id = some old from hold) hclosing

theorem Closes.afterClose {id : UInt64} {old new : AuctionItem}
    (hold : s.house.auctionItems[id]? = some old) (hclosing : Closing buyers old new)
    (o : ItemUpdateOutcomes) (seller : ReadOutcome) :
    Closes buyers s (s.afterClose o seller id new) := by
  let closed : Server :=
    { house := s.house.setItem id new
      db := (s.db.updateAuctionItem o new).2 }
  have hclosed : Closes buyers s closed := Closes.setItem hold hclosing rfl
  simp only [Server.afterClose]
  split
  · obtain ⟨hsame, -⟩ := closed.house.removeFromIndices_cases closed.db seller new
    exact hclosed.trans (Closes.of_same hsame)
  · exact hclosed

theorem purchaseItem_closes (s : Server) (o : PurchaseOutcomes) (now : Time)
    (auctionId : UInt64) {buyerId : UInt32} (hbuyer : buyerId ∈ buyers) :
    Closes buyers s (s.purchaseItem o now auctionId buyerId).2 := by
  refine @purchaseItem_keeps (Closes buyers s) s o now auctionId buyerId ?_ ?_
    (Closes.refl s)
  · exact fun _ _ => Closes.of_same ⟨rfl, rfl⟩
  · rintro listing ⟨hitem, hactive, hother⟩ hpaid
    let paid : Server := { s with db := (settle s.db o listing buyerId).2 }
    have hitem' : paid.house.auctionItems[auctionId]? = some listing := hitem
    exact hpaid.trans (Closes.afterClose hitem'
      (.sold now hactive hother hbuyer) o.item o.seller)

theorem cancelListing_closes (s : Server) (o : CancelOutcomes)
    (auctionId : UInt64) (sellerId : UInt32) :
    Closes buyers s (s.cancelListing o auctionId sellerId).2 := by
  refine @cancelListing_keeps (Closes buyers s) s o auctionId sellerId ?_
    (Closes.refl s)
  rintro listing ⟨hitem, hactive, -⟩ -
  exact Closes.afterClose hitem (.cancelled hactive) o.item o.seller

theorem Closes.expiry (h : Closes buyers s s') {now : Time} {id : UInt64}
    {item : AuctionItem} (hdue : s'.Due now id item) (o : ItemUpdateOutcomes) :
    Closes buyers s (s'.afterExpiry o id item) :=
  h.trans (Closes.setItem hdue.1 (.expired hdue.active) rfl)

theorem expireItems_closes (o : UInt64 → ItemUpdateOutcomes) (now : Time)
    (ids : List UInt64) (s : Server) :
    Closes buyers s (expireItems o now ids s).2 :=
  @expireItems_keeps o now s (Closes buyers s)
    (fun _ id _ hdue h => h.expiry hdue (o id)) ids (Closes.refl s)

theorem processExpiredItems_closes (s : Server) (o : SweepOutcomes) (now : Time)
    (order : List UInt64) :
    Closes buyers s (s.processExpiredItems o now order).2 := by
  refine @processExpiredItems_keeps now s (Closes buyers s) o ?_ ?_ order
    (Closes.refl s)
  · exact fun _ id _ hdue h => h.expiry hdue (o.item id)
  · intro s' id item h
    obtain ⟨hsame, -⟩ :=
      s'.house.removeFromIndices_cases s'.db (o.seller id) item
    exact h.trans (Closes.of_same hsame)

/-- Within a process, a call that registers nothing only closes listings. -/
theorem step_closes [StdSort] {e : ServerEvent} (hfires : machine.Fires e)
    (hwell : e.before.WellFiled) (hprocess : e.input.InProcess)
    (hbuyer : e.input.BuyerIn buyers) (hother : e.input.isRegistration = false) :
    Closes buyers e.before e.after := by
  obtain ⟨s, call, reply, s'⟩ := e
  replace hwell : s.WellFiled := hwell
  cases call with
  | registerItem o now sellerId item price => cases hother
  | searchItems o criteria =>
      obtain ⟨result, hsearch, -⟩ := fires_searchItems.mp hfires
      obtain ⟨redis, rfl⟩ := hwell.searchItems_frame hsearch
      exact Closes.of_same ⟨rfl, rfl⟩
  | purchaseItem o now auctionId buyerId =>
      obtain ⟨-, rfl⟩ := fires_purchaseItem.mp hfires
      exact purchaseItem_closes s o now auctionId hbuyer
  | cancelListing o auctionId sellerId =>
      obtain ⟨-, rfl⟩ := fires_cancelListing.mp hfires
      exact cancelListing_closes s o auctionId sellerId
  | processExpiredItems o now order =>
      obtain ⟨-, -, rfl⟩ := fires_processExpiredItems.mp hfires
      exact processExpiredItems_closes s o now order
  | restart order failsAfter sellers => exact hprocess.elim
  | expireKey key =>
      obtain ⟨-, rfl⟩ := fires_expireKey.mp hfires
      exact Closes.of_same ⟨rfl, rfl⟩

/-! ## Registrations -/

/-- A registration uses up one id, and keeps its listing or not. -/
theorem registerItem_book (s : Server) (o : RegisterOutcomes) (now : Time)
    (sellerId : UInt32) (item : Item) (price : UInt32) :
    (s.registerItem o now sellerId item price).2.house.nextAuctionId =
        s.house.nextAuctionId + 1 ∧
      ((s.registerItem o now sellerId item price).2.house.auctionItems =
          s.house.auctionItems ∨
        (s.registerItem o now sellerId item price).2.house.auctionItems =
          s.house.auctionItems.insert s.house.nextAuctionId
            (newListing s.house.nextAuctionId now sellerId item price)) := by
  by_cases hinsert : o.insert = .done
  · obtain ⟨keys, house, heq, hnext, hitems, -⟩ :=
      registerItem_of_done s now sellerId item price hinsert
    rw [heq]
    exact ⟨hnext, Or.inr hitems⟩
  · rw [registerItem_of_ne_done s now sellerId item price hinsert]
    exact ⟨rfl, Or.inl rfl⟩

/-- The event puts a new listing in memory. -/
def Lists (e : ServerEvent) (id : UInt64) (listed : AuctionItem) : Prop :=
  (∃ o now sellerId item price,
      e.input = .registerItem o now sellerId item price ∧
        listed = newListing id now sellerId item price) ∧
    e.before.house.auctionItems[id]? = none ∧
    e.after.house.auctionItems[id]? = some listed

/-- The number of registrations among the events. -/
def registrations (es : List ServerEvent) : ℕ :=
  es.countP fun e => e.input.isRegistration

theorem registrations_append (past : List ServerEvent) (e : ServerEvent) :
    registrations (past ++ [e]) =
      registrations past + if e.input.isRegistration then 1 else 0 := by
  rw [registrations, List.countP_append, List.countP_singleton]
  rfl

/-- The ids of a process that has seen `past`: they were counted up from one,
and every listing has one of them. -/
structure Counted (past : List ServerEvent) (s : Server) : Prop where
  next : s.house.nextAuctionId = 1 + UInt64.ofNat (registrations past)
  below : ∀ id item, s.house.auctionItems[id]? = some item →
    id < s.house.nextAuctionId

theorem Counted.ne_last {past : List ServerEvent} (h : s.Counted past)
    (hcount : registrations past + 1 < 2 ^ 64 - 1) :
    s.house.nextAuctionId ≠ -1 := by
  rw [h.next]
  intro hlast
  have hnat := congrArg UInt64.toNat hlast
  rw [UInt64.toNat_add, UInt64.toNat_ofNat'] at hnat
  have hone : (1 : UInt64).toNat = 1 := rfl
  have hmax : (-1 : UInt64).toNat = 2 ^ 64 - 1 := rfl
  omega

/-- A registration gives its id to no listing there was. -/
theorem Counted.register {past : List ServerEvent} (h : s.Counted past)
    (hcount : registrations past + 1 < 2 ^ 64 - 1) (o : RegisterOutcomes)
    (now : Time) (sellerId : UInt32) (item : Item) (price : UInt32)
    {reply : Reply} :
    (s.registerItem o now sellerId item price).2.Counted
      (past ++ [⟨s, .registerItem o now sellerId item price, reply,
        (s.registerItem o now sellerId item price).2⟩]) := by
  obtain ⟨hnext, hitems⟩ := registerItem_book s o now sellerId item price
  have hlt : s.house.nextAuctionId < s.house.nextAuctionId + 1 :=
    lt_add_one_of_ne (h.ne_last hcount)
  constructor
  · rw [hnext, h.next, registrations_append]
    simp [Call.isRegistration, UInt64.ofNat_add, UInt64.add_assoc]
  · intro id item' hitem'
    rw [hnext]
    rcases hitems with hsame | hinsert
    · rw [hsame] at hitem'
      exact UInt64.lt_trans (h.below id item' hitem') hlt
    · rw [hinsert, Std.ExtTreeMap.getElem?_insert] at hitem'
      split at hitem'
      · next hid =>
          have hid' : s.house.nextAuctionId = id := by simpa using hid
          rw [← hid']
          exact hlt
      · exact UInt64.lt_trans (h.below id item' hitem') hlt

theorem Counted.closes {past : List ServerEvent} (h : s.Counted past)
    (hcloses : Closes buyers s s') {e : ServerEvent}
    (hother : e.input.isRegistration = false) : s'.Counted (past ++ [e]) := by
  constructor
  · rw [hcloses.next, h.next, registrations_append, hother]
    rfl
  · intro id item hitem
    obtain ⟨old, hold, -⟩ := hcloses.entries.ancestor
      (show s'.book.entries id = some item from hitem)
    rw [hcloses.next]
    exact h.below id old hold

/-! ## Runs -/

/-- What the events so far say about the listings: each was listed by one of
them, and each that was there before one of them is still there. -/
structure Recorded (buyers : Set UInt32) (past : List ServerEvent) (s : Server) : Prop where
  counted : s.Counted past
  origin : ∀ (id : UInt64) (item : AuctionItem), s.house.auctionItems[id]? = some item →
    ∃ e ∈ past, ∃ listed, Lists e id listed ∧ ReflTransGen (Closing buyers) listed item
  kept : ∀ e ∈ past, ∀ (id : UInt64) (old : AuctionItem),
    e.before.house.auctionItems[id]? = some old →
    ∃ new : AuctionItem, s.house.auctionItems[id]? = some new ∧ ReflTransGen (Closing buyers) old new

variable {past : List ServerEvent}

theorem Recorded.closes (h : Recorded buyers past s) (hcloses : Closes buyers s s')
    {call : Call} {reply : Reply} (hother : call.isRegistration = false) :
    Recorded buyers (past ++ [⟨s, call, reply, s'⟩]) s' := by
  have hstays : ∀ (id : UInt64) (old : AuctionItem),
      s.house.auctionItems[id]? = some old →
      ∃ new, s'.house.auctionItems[id]? = some new ∧
        ReflTransGen (Closing buyers) old new := fun id old hold =>
    hcloses.entries.descendant (show s.book.entries id = some old from hold)
  refine ⟨h.counted.closes hcloses hother, ?_, ?_⟩
  · intro id item hitem
    obtain ⟨old, hold, hclosing⟩ := hcloses.entries.ancestor
      (show s'.book.entries id = some item from hitem)
    obtain ⟨e, he, listed, hlists, hearlier⟩ := h.origin id old hold
    exact ⟨e, by simp [he], listed, hlists, hearlier.trans hclosing⟩
  · intro e he id old hold
    rcases List.mem_append.mp he with hpast | hlast
    · obtain ⟨mid, hmid, hearlier⟩ := h.kept e hpast id old hold
      obtain ⟨new, hnew, hclosing⟩ := hstays id mid hmid
      exact ⟨new, hnew, hearlier.trans hclosing⟩
    · obtain rfl := List.mem_singleton.mp hlast
      exact hstays id old hold

theorem Recorded.register (h : Recorded buyers past s)
    (hcount : registrations past + 1 < 2 ^ 64 - 1) (o : RegisterOutcomes)
    (now : Time) (sellerId : UInt32) (item : Item) (price : UInt32)
    {reply : Reply} :
    Recorded buyers
      (past ++ [⟨s, .registerItem o now sellerId item price, reply,
        (s.registerItem o now sellerId item price).2⟩])
      (s.registerItem o now sellerId item price).2 := by
  let id := s.house.nextAuctionId
  let listed := newListing id now sellerId item price
  have hnew : s.house.auctionItems[id]? = none := by
    cases hitem : s.house.auctionItems[id]? with
    | none => rfl
    | some old => exact (UInt64.lt_irrefl _ (h.counted.below id old hitem)).elim
  obtain ⟨-, hitems⟩ := registerItem_book s o now sellerId item price
  have hstays : ∀ (i : UInt64) (old : AuctionItem),
      s.house.auctionItems[i]? = some old →
      (s.registerItem o now sellerId item price).2.house.auctionItems[i]? =
        some old := by
    intro i old hold
    rcases hitems with hsame | hinsert
    · rw [hsame]
      exact hold
    · have hne : id ≠ i := by
        rintro rfl
        rw [hnew] at hold
        cases hold
      rw [hinsert, Std.ExtTreeMap.getElem?_insert, if_neg (by simpa using hne)]
      exact hold
  refine ⟨h.counted.register hcount o now sellerId item price, ?_, ?_⟩
  · intro i item' hitem'
    by_cases hold : s.house.auctionItems[i]? = some item'
    · obtain ⟨e, he, listed', hlists, hearlier⟩ := h.origin i item' hold
      exact ⟨e, by simp [he], listed', hlists, hearlier⟩
    · -- The listing was not there before, so it is the new one.
      rcases hitems with hsame | hinsert
      · rw [hsame] at hitem'
        exact (hold hitem').elim
      · have hitem'' := hitem'
        rw [hinsert, Std.ExtTreeMap.getElem?_insert] at hitem''
        split at hitem''
        · next hid =>
            obtain rfl := Option.some.inj hitem''
            have hid' : id = i := by simpa using hid
            subst hid'
            refine ⟨_, List.mem_append_right _ (List.mem_singleton_self _),
              listed, ⟨⟨o, now, sellerId, item, price, rfl, rfl⟩, hnew, hitem'⟩,
              ReflTransGen.refl⟩
        · exact (hold hitem'').elim
  · intro e he i old hold
    rcases List.mem_append.mp he with hpast | hlast
    · obtain ⟨mid, hmid, hearlier⟩ := h.kept e hpast i old hold
      exact ⟨mid, hstays i mid hmid, hearlier⟩
    · obtain rfl := List.mem_singleton.mp hlast
      exact ⟨old, hstays i old hold, ReflTransGen.refl⟩

variable {db : Database} {order : List AuctionDocument} {failsAfter : Option ℕ}
  {sellers : ℕ → ReadOutcome}

/-- A start over no documents leaves the initial house. -/
theorem Starts.of_empty (hempty : db.auctions = [])
    (hstart : Starts db order failsAfter sellers s) :
    s = { house := AuctionHouse.initial, db } := by
  obtain ⟨hperm, house, hhouse, rfl⟩ := restart_eq_some.mp hstart
  rw [show ({ house := AuctionHouse.initial, db } : Server).db.auctions = []
    from hempty, List.perm_nil] at hperm
  subst hperm
  have hnone : Database.loadAllAuctionItems [] failsAfter = [] := by
    cases failsAfter <;> simp [Database.loadAllAuctionItems]
  rw [AuctionHouse.construct, hnone] at hhouse
  obtain rfl : AuctionHouse.initial = house := Except.ok.inj hhouse
  rfl

theorem recorded_initial (db : Database) :
    Recorded buyers [] { house := AuctionHouse.initial, db } := by
  refine ⟨⟨rfl, ?_⟩, ?_, by simp⟩
  · intro id item hitem
    simp [AuctionHouse.initial] at hitem
  · intro id item hitem
    simp [AuctionHouse.initial] at hitem

variable [StdSort]

/-- A process that starts over no documents is recorded, as long as it
registers fewer than `2 ^ 64 - 1` listings. -/
theorem recorded_run (hempty : db.auctions = []) {calls : List Call}
    {es : List ServerEvent}
    (hserve : serve db order failsAfter sellers calls = some (es, s))
    (hprocess : ∀ call ∈ calls, call.InProcess)
    (hbuyers : ∀ call ∈ calls, call.BuyerIn buyers)
    (hcount : calls.countP Call.isRegistration < 2 ^ 64 - 1) :
    Recorded buyers es s ∧
      ∀ past e rest, es = past ++ e :: rest → Recorded buyers past e.before := by
  obtain ⟨s₀, hstart, hrun⟩ := serve_eq_some.mp hserve
  obtain rfl := hstart.of_empty hempty
  have hinput := Machine.run_input_mem hrun
  have htotal : registrations es < 2 ^ 64 - 1 := by
    rw [← Machine.run_inputs hrun, List.countP_map] at hcount
    exact hcount
  have hkeep : ∀ past e, machine.Fires e → e ∈ es →
      (e.before.WellFiled ∧ (registrations past < 2 ^ 64 - 1 →
        Recorded buyers past e.before)) →
      e.after.WellFiled ∧ (registrations (past ++ [e]) < 2 ^ 64 - 1 →
        Recorded buyers (past ++ [e]) e.after) := by
    rintro past e hfires he ⟨hwell, hrecorded⟩
    refine ⟨wellFiled_preserves e hfires trivial hwell, ?_⟩
    intro hlater
    rw [registrations_append] at hlater
    have hbefore := hrecorded (by omega)
    cases hregistration : e.input.isRegistration with
    | false =>
        exact hbefore.closes (step_closes hfires hwell
          (hprocess _ (hinput e he)) (hbuyers _ (hinput e he)) hregistration)
          hregistration
    | true =>
        rw [hregistration, if_pos rfl] at hlater
        obtain ⟨s, call, reply, s'⟩ := e
        cases call with
        | registerItem o now sellerId item price =>
            obtain ⟨-, rfl⟩ := fires_registerItem.mp hfires
            exact hbefore.register hlater o now sellerId item price
        | _ => cases hregistration
  have hinitial : WellFiled { house := AuctionHouse.initial, db } ∧
      (registrations [] < 2 ^ 64 - 1 →
        Recorded buyers [] { house := AuctionHouse.initial, db }) :=
    ⟨wellFiled_initial db, fun _ => recorded_initial db⟩
  obtain ⟨hend, hpast⟩ := Machine.run_history
    (I := fun past s => s.WellFiled ∧
      (registrations past < 2 ^ 64 - 1 → Recorded buyers past s))
    (G := fun e => e ∈ es) hkeep hrun (fun _ he => he) hinitial
  refine ⟨hend.2 htotal, ?_⟩
  intro past e rest hsplit
  refine (hpast past e rest hsplit).2 ?_
  rw [hsplit, registrations, List.countP_append] at htotal
  exact Nat.lt_of_le_of_lt (Nat.le_add_right _ _) htotal

/-- Such a process never assigns the last id. -/
theorem undisturbed_run (hempty : db.auctions = []) {calls : List Call}
    {es : List ServerEvent}
    (hserve : serve db order failsAfter sellers calls = some (es, s))
    (hprocess : ∀ call ∈ calls, call.InProcess)
    (hcount : calls.countP Call.isRegistration < 2 ^ 64 - 1) :
    ∀ e ∈ es, e.before.Undisturbed e.input := by
  have hbuyers : ∀ call ∈ calls, call.BuyerIn Set.univ := by
    intro call _
    cases call <;> trivial
  obtain ⟨-, hbefore⟩ := recorded_run hempty hserve hprocess hbuyers hcount
  obtain ⟨s₀, -, hrun⟩ := serve_eq_some.mp hserve
  rw [← Machine.run_inputs hrun, List.countP_map] at hcount
  intro e he
  have hin := hprocess e.input (Machine.run_input_mem hrun e he)
  obtain ⟨past, rest, hsplit⟩ := List.append_of_mem he
  have hrecorded := hbefore past e rest hsplit
  obtain ⟨s, call, reply, s'⟩ := e
  cases call with
  | registerItem o now sellerId item price =>
      apply hrecorded.counted.ne_last
      rw [hsplit, List.countP_append, List.countP_cons_of_pos (by rfl)] at hcount
      exact Nat.lt_of_le_of_lt
        (Nat.add_le_add_left (Nat.le_add_left 1 _) _) hcount
  | restart order failsAfter sellers => exact hin.elim
  | _ => trivial

/-- What a run says about its listings. -/
structure LifecycleHolds (es : List ServerEvent) (s : Server) : Prop where
  registered : ∀ (id : UInt64) (item : AuctionItem),
    s.house.auctionItems[id]? = some item →
    ∃ e ∈ es, ∃ listed, Lists e id listed ∧ SameOffer listed item
  forever : ∀ e ∈ es, ∀ (id : UInt64) (old : AuctionItem),
    e.before.house.auctionItems[id]? = some old →
    ∃ new : AuctionItem, s.house.auctionItems[id]? = some new ∧ SameOffer old new ∧
      (old.status ≠ .active → new = old)
  sold_iff : ∀ (id : UInt64) (item : AuctionItem),
    s.house.auctionItems[id]? = some item →
    (item.status = .sold ↔ item.buyerId ≠ 0)
  owner : ∀ (id : UInt64) (item : AuctionItem),
    s.house.auctionItems[id]? = some item →
    item.status = .sold →
      item.item.ownerId = item.buyerId ∧ item.buyerId ≠ item.sellerId
  unsold : ∀ (id : UInt64) (item : AuctionItem),
    s.house.auctionItems[id]? = some item →
    item.status ≠ .sold → item.buyerId = 0 ∧ item.soldTime = 0

omit [StdSort] in
/-- A descendant of a new listing has a buyer exactly if it is sold. -/
theorem buyer_of_closings {id : UInt64} {now : Time} {sellerId : UInt32}
    {item : Item} {price : UInt32} {new : AuctionItem}
    (h : ReflTransGen (Closing {u | u ≠ 0})
      (newListing id now sellerId item price) new) :
    (new.status = .sold ∧ new.buyerId ≠ 0 ∧ new.item.ownerId = new.buyerId ∧
        new.buyerId ≠ new.sellerId) ∨
      (new.status ≠ .sold ∧ new.buyerId = 0 ∧ new.soldTime = 0) := by
  rcases eq_or_closing h with rfl | hclosing
  · exact Or.inr ⟨by simp [newListing], rfl, rfl⟩
  · cases hclosing with
    | sold later hactive hother hbuyer =>
        exact Or.inl ⟨rfl, hbuyer, rfl, hother.symm⟩
    | cancelled hactive => exact Or.inr ⟨by simp [cancelledListing], rfl, rfl⟩
    | expired hactive => exact Or.inr ⟨by simp [expiredListing], rfl, rfl⟩

/-- Whatever the store does, a listing of a process that starts over no
documents keeps what it was registered with, is closed once and for all, and
has a buyer exactly if it is sold. -/
theorem listing_lifecycle (hempty : db.auctions = []) {calls : List Call}
    {es : List ServerEvent}
    (hserve : serve db order failsAfter sellers calls = some (es, s))
    (hprocess : ∀ call ∈ calls, call.InProcess)
    (hbuyers : ∀ call ∈ calls, call.BuyerIn {u | u ≠ 0})
    (hcount : calls.countP Call.isRegistration < 2 ^ 64 - 1) :
    LifecycleHolds es s := by
  obtain ⟨hend, -⟩ := recorded_run hempty hserve hprocess hbuyers hcount
  have hbuyer : ∀ (id : UInt64) (item : AuctionItem),
      s.house.auctionItems[id]? = some item →
      (item.status = .sold ∧ item.buyerId ≠ 0 ∧
          item.item.ownerId = item.buyerId ∧ item.buyerId ≠ item.sellerId) ∨
        (item.status ≠ .sold ∧ item.buyerId = 0 ∧ item.soldTime = 0) := by
    intro id item hitem
    obtain ⟨e, -, listed, ⟨⟨o, now, sellerId, it, price, -, rfl⟩, -⟩, hclosings⟩ :=
      hend.origin id item hitem
    exact buyer_of_closings hclosings
  constructor
  · intro id item hitem
    obtain ⟨e, he, listed, hlists, hclosings⟩ := hend.origin id item hitem
    exact ⟨e, he, listed, hlists, sameOffer_of_closings hclosings⟩
  · intro e he id old hold
    obtain ⟨new, hnew, hclosings⟩ := hend.kept e he id old hold
    refine ⟨new, hnew, sameOffer_of_closings hclosings, ?_⟩
    intro hclosed
    rcases eq_or_closing hclosings with rfl | hclosing
    · rfl
    · exact (hclosed hclosing.active).elim
  · intro id item hitem
    rcases hbuyer id item hitem with ⟨hsold, hne, -⟩ | ⟨hsold, hzero, -⟩
    · exact iff_of_true hsold hne
    · exact iff_of_false hsold (not_not.mpr hzero)
  · intro id item hitem hsold
    rcases hbuyer id item hitem with ⟨-, -, howner, hother⟩ | ⟨hnot, -⟩
    · exact ⟨howner, hother⟩
    · exact (hnot hsold).elim
  · intro id item hitem hnot
    rcases hbuyer id item hitem with ⟨hsold, -⟩ | ⟨-, hzero, htime⟩
    · exact (hnot hsold).elim
    · exact ⟨hzero, htime⟩

omit [StdSort] in
/-- A sword is sold and an axe withdrawn; nobody can buy the axe then. -/
theorem listing_lifecycle_market :
    ∃ es s, @serve StdSort.insertion market [] none (fun _ => .answered)
        [offer "iron sword", offer "axe", purchase 1, cancel 2, purchase 2] =
          some (es, s) ∧
      LifecycleHolds es s := by
  obtain ⟨es, s, hserve, -⟩ :=
    @exists_serve StdSort.insertion market [] none (fun _ => .answered)
      [offer "iron sword", offer "axe", purchase 1, cancel 2, purchase 2]
      (fun _ _ => true) (by decide)
  refine ⟨es, s, hserve, @listing_lifecycle s market [] none _
    StdSort.insertion rfl _ es hserve ?_ ?_ (by decide)⟩
  · simp [offer, purchase, cancel, Call.InProcess]
  · simp [offer, purchase, cancel, Call.BuyerIn]

end Server
end AuctionServer
