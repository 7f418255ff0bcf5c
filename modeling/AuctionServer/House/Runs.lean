import AuctionServer.House.Loading
import AuctionServer.House.Selection
import AuctionServer.House.Sweep

/-!
# Runs of the server

Every call is a sequence of moves, so an invariant of moves holds in every
state of a run.  A call says by itself whether its seller lookups are answered
and whether its writes are done.
-/

namespace AuctionServer

open Relation (ReflTransGen)

/-- The seller lookups of the call are answered. -/
def Call.LookupsAnswered : Call → Prop
  | .registerItem o _ _ _ _ => o.seller = .answered
  | .searchItems o _ => ∀ id, o.sellers id = .answered
  | .purchaseItem o _ _ _ => o.seller = .answered
  | .cancelListing o _ _ => o.seller = .answered
  | .processExpiredItems o _ _ => ∀ id, o.seller id = .answered
  | .restart _ _ sellers => ∀ n, sellers n = .answered
  | .expireKey _ => True

/-- The writes of the call to the listings are done, and a start loads every
document. -/
def Call.WritesDone : Call → Prop
  | .registerItem o _ _ _ _ => o.insert = .done
  | .searchItems _ _ => True
  | .purchaseItem o _ _ _ => o.item.update = .done
  | .cancelListing o _ _ => o.item.update = .done
  | .processExpiredItems o _ _ => ∀ id, (o.item id).update = .done
  | .restart _ failsAfter _ => failsAfter = none
  | .expireKey _ => True

/-- The update of a listing is done, and dropping its cache entry raises
nothing. -/
def ItemUpdateOutcomes.Answered (o : ItemUpdateOutcomes) : Prop :=
  o.update = .done ∧ ∀ applied, o.del ≠ .raised applied

/-- No store call of the purchase fails. -/
def Server.PurchaseOutcomes.Answered (o : Server.PurchaseOutcomes) : Prop :=
  o.buyer = .answered ∧ o.credit = ⟨.answered, .done⟩ ∧
    o.debit = ⟨.answered, .done⟩ ∧ o.item.Answered ∧ o.seller = .answered

/-- No store call of the call fails. -/
def Call.StoreAnswers : Call → Prop
  | .registerItem o _ _ _ _ => o.insert = .done ∧ o.seller = .answered
  | .searchItems o _ =>
      o.get = .answered ∧ (∀ id, o.sellers id = .answered) ∧ o.setex = .done
  | .purchaseItem o _ _ _ => o.Answered
  | .cancelListing o _ _ => o.item.Answered ∧ o.seller = .answered
  | .processExpiredItems o _ _ =>
      ∀ id, (o.item id).Answered ∧ o.seller id = .answered
  | .restart _ failsAfter sellers =>
      failsAfter = none ∧ ∀ n, sellers n = .answered
  | .expireKey _ => True

theorem Call.StoreAnswers.writesDone {call : Call} (h : call.StoreAnswers) :
    call.WritesDone := by
  cases call with
  | registerItem o now sellerId item price => exact h.1
  | searchItems o criteria => trivial
  | purchaseItem o now auctionId buyerId => exact h.2.2.2.1.1
  | cancelListing o auctionId sellerId => exact h.1.1
  | processExpiredItems o now order => exact fun id => (h id).1.1
  | restart order failsAfter sellers => exact h.1
  | expireKey key => trivial

/-- The call is made to the house that is running. -/
def Call.InProcess : Call → Prop
  | .restart _ _ _ => False
  | _ => True

/-- If the call registers an item, its seller can be looked up. -/
def Call.SellerReadable (db : Database) : Call → Prop
  | .registerItem _ _ sellerId _ _ => db.Readable sellerId
  | _ => True

namespace Server

variable [StdSort]

/-- A search of a well-filed house changes the cache only. -/
theorem WellFiled.searchItems_frame {s s' : Server} (h : s.WellFiled)
    {o : SearchOutcomes} {criteria : SearchCriteria}
    {result : Except StoreException (List AuctionItem)}
    (hsearch : s.searchItems o criteria = some (result, s')) :
    ∃ redis, s' = { s with db := { s.db with redis } } := by
  rcases h.searchItems_cases hsearch with
    ⟨results, -, -, rfl⟩ | ⟨-, -, ⟨results, -, -, rfl⟩ | ⟨rfl, -⟩⟩
  · exact ⟨s'.db.redis, rfl⟩
  · obtain ⟨redis, heq, -⟩ :=
      s.db.cacheSearchResults_redis o.setex criteria.hash results
    exact ⟨redis, by rw [heq]⟩
  · exact ⟨s'.db.redis, rfl⟩

theorem fires_registerItem {s s' : Server} {o : RegisterOutcomes} {now : Time}
    {sellerId : UInt32} {item : Item} {price : UInt32} {reply : Reply} :
    machine.Fires ⟨s, .registerItem o now sellerId item price, reply, s'⟩ ↔
      .registered (s.registerItem o now sellerId item price).1 = reply ∧
        (s.registerItem o now sellerId item price).2 = s' := by
  unfold Machine.Fires machine step
  simp

theorem fires_purchaseItem {s s' : Server} {o : PurchaseOutcomes} {now : Time}
    {auctionId : UInt64} {buyerId : UInt32} {reply : Reply} :
    machine.Fires ⟨s, .purchaseItem o now auctionId buyerId, reply, s'⟩ ↔
      .purchased (s.purchaseItem o now auctionId buyerId).1 = reply ∧
        (s.purchaseItem o now auctionId buyerId).2 = s' := by
  unfold Machine.Fires machine step
  simp

theorem fires_cancelListing {s s' : Server} {o : CancelOutcomes}
    {auctionId : UInt64} {sellerId : UInt32} {reply : Reply} :
    machine.Fires ⟨s, .cancelListing o auctionId sellerId, reply, s'⟩ ↔
      .cancelled (s.cancelListing o auctionId sellerId).1 = reply ∧
        (s.cancelListing o auctionId sellerId).2 = s' := by
  unfold Machine.Fires machine step
  simp

theorem fires_processExpiredItems {s s' : Server} {o : SweepOutcomes}
    {now : Time} {order : List UInt64} {reply : Reply} :
    machine.Fires ⟨s, .processExpiredItems o now order, reply, s'⟩ ↔
      order.isPerm s.house.auctionItems.keys = true ∧
        .swept (s.processExpiredItems o now order).1 = reply ∧
        (s.processExpiredItems o now order).2 = s' := by
  by_cases horder : order.isPerm s.house.auctionItems.keys = true
  · unfold Machine.Fires machine step
    simp [horder]
  · unfold Machine.Fires machine step
    simp [horder]

theorem fires_expireKey {s s' : Server} {key : String} {reply : Reply} :
    machine.Fires ⟨s, .expireKey key, reply, s'⟩ ↔
      .keyExpired = reply ∧ s.expireKey key = s' := by
  unfold Machine.Fires machine step
  simp

theorem fires_restart {s s' : Server} {order : List AuctionDocument}
    {failsAfter : Option ℕ} {sellers : ℕ → ReadOutcome} {reply : Reply} :
    machine.Fires ⟨s, .restart order failsAfter sellers, reply, s'⟩ ↔
      s.restart order failsAfter sellers = some s' ∧ Reply.restarted = reply := by
  unfold Machine.Fires machine step
  simp [and_comm]

theorem fires_searchItems {s s' : Server} {o : SearchOutcomes}
    {criteria : SearchCriteria} {reply : Reply} :
    machine.Fires ⟨s, .searchItems o criteria, reply, s'⟩ ↔
      ∃ result, s.searchItems o criteria = some (result, s') ∧
        reply = .found result := by
  cases hsearch : s.searchItems o criteria with
  | none =>
      unfold Machine.Fires machine step
      simp [hsearch]
  | some found =>
      obtain ⟨result, s''⟩ := found
      unfold Machine.Fires machine step
      simp only [hsearch, Option.some.injEq, Prod.mk.injEq]
      constructor
      · rintro ⟨rfl, rfl⟩
        exact ⟨result, ⟨rfl, rfl⟩, rfl⟩
      · rintro ⟨result', ⟨rfl, rfl⟩, rfl⟩
        exact ⟨rfl, rfl⟩

omit [StdSort] in
/-- A call to `s` neither assigns the last id nor starts a house that misses
the greatest stored id. -/
def IdsAdvance (s : Server) : Call → Prop
  | .registerItem _ _ _ _ _ => s.house.nextAuctionId ≠ -1
  | .restart order failsAfter _ => SeesLastId s.db order failsAfter
  | _ => True

instance (s : Server) (call : Call) : Decidable (s.IdsAdvance call) :=
  match call with
  | .registerItem _ _ _ _ _ => inferInstanceAs (Decidable (_ ≠ _))
  | .restart _ _ _ => inferInstanceAs (Decidable (SeesLastId _ _ _))
  | .searchItems _ _ => isTrue trivial
  | .purchaseItem _ _ _ _ => isTrue trivial
  | .cancelListing _ _ _ => isTrue trivial
  | .processExpiredItems _ _ _ => isTrue trivial
  | .expireKey _ => isTrue trivial

omit [StdSort] in
/-- What a call can rely on. -/
def guarantees (e : ServerEvent) : Guarantees where
  lookups := e.input.LookupsAnswered ∧ e.before.db.BalancesReadable
  writes := e.input.WritesDone
  ids := e.before.IdsAdvance e.input

/-- Every call is a sequence of moves. -/
theorem step_moves {e : ServerEvent} (hfires : machine.Fires e)
    (h : e.before.WellFiled) :
    ReflTransGen (Move (guarantees e)) e.before e.after := by
  obtain ⟨s, call, reply, s'⟩ := e
  replace h : s.WellFiled := h
  cases call with
  | registerItem o now sellerId item price =>
      obtain ⟨-, rfl⟩ := fires_registerItem.mp hfires
      exact ReflTransGen.single
        (registerItem_move now sellerId item price (fun hl => hl) (fun hw => hw)
          fun hi => hi)
  | searchItems o criteria =>
      obtain ⟨result, hsearch, -⟩ := fires_searchItems.mp hfires
      obtain ⟨redis, rfl⟩ := h.searchItems_frame hsearch
      exact ReflTransGen.single
        (.touch rfl rfl (Database.SameNames.of_users rfl))
  | purchaseItem o now auctionId buyerId =>
      obtain ⟨-, rfl⟩ := fires_purchaseItem.mp hfires
      exact purchaseItem_moves now auctionId buyerId fun hw => hw
  | cancelListing o auctionId sellerId =>
      obtain ⟨-, rfl⟩ := fires_cancelListing.mp hfires
      exact cancelListing_moves auctionId sellerId fun hw => hw
  | processExpiredItems o now order =>
      obtain ⟨-, -, rfl⟩ := fires_processExpiredItems.mp hfires
      exact (processExpiredItems_moves s now order fun hw => hw).1
  | restart order failsAfter sellers =>
      obtain ⟨hrestart, -⟩ := fires_restart.mp hfires
      exact ReflTransGen.single
        (restart_move (fun hl => hl) (fun hw => hw) (fun hi => hi) hrestart)
  | expireKey key =>
      obtain ⟨-, rfl⟩ := fires_expireKey.mp hfires
      exact ReflTransGen.single
        (.touch rfl rfl (Database.SameNames.of_users rfl))

/-! ## Invariants of runs -/

theorem wellFiled_preserves : machine.Preserves (fun _ => True) WellFiled :=
  fun _ hfires _ h => h.moves (step_moves hfires h)

theorem indexed_preserves :
    machine.Preserves (fun e => e.input.LookupsAnswered) Indexed := by
  intro e hfires hanswered h
  have hlookups : (guarantees e).lookups := ⟨hanswered, h.readable⟩
  exact h.moves hlookups (step_moves hfires h.wellFiled)

variable {db : Database} {order : List AuctionDocument} {failsAfter : Option ℕ}
  {sellers : ℕ → ReadOutcome} {s : Server}

omit [StdSort] in
theorem Starts.wellFiled (h : Starts db order failsAfter sellers s) :
    s.WellFiled := by
  have hmove : Move ⟨False, False, False⟩
      { house := AuctionHouse.initial, db } s :=
    restart_move False.elim False.elim False.elim h
  exact (wellFiled_initial db).move hmove

omit [StdSort] in
theorem Starts.indexed (h : Starts db order failsAfter sellers s)
    (hreadable : db.BalancesReadable) (hsellers : ∀ n, sellers n = .answered) :
    s.Indexed := by
  have hmove : Move ⟨True, False, False⟩
      { house := AuctionHouse.initial, db } s :=
    restart_move (fun _ => ⟨hsellers, hreadable⟩) False.elim False.elim h
  have hinitial : Indexed { house := AuctionHouse.initial, db } := by
    refine ⟨wellFiled_initial db, hreadable, ?_⟩
    intro id item hitem
    simp [AuctionHouse.initial] at hitem
  exact hinitial.move trivial hmove

/-- Start a house over a database and make the calls. -/
def serve (db : Database) (order : List AuctionDocument)
    (failsAfter : Option ℕ) (sellers : ℕ → ReadOutcome) (calls : List Call) :
    Option (List ServerEvent × Server) :=
  match restart { house := AuctionHouse.initial, db } order failsAfter sellers with
  | none => none
  | some s => machine.run s calls

variable {calls : List Call} {es : List ServerEvent}

theorem serve_eq_some :
    serve db order failsAfter sellers calls = some (es, s) ↔
      ∃ s₀, Starts db order failsAfter sellers s₀ ∧
        machine.run s₀ calls = some (es, s) := by
  unfold serve Starts
  cases restart { house := AuctionHouse.initial, db } order failsAfter sellers with
  | none => simp
  | some s₀ => simp

/-- The state can be reached by starting a house over some database and then
making calls in any order. -/
def Reachable (s : Server) : Prop :=
  ∃ db order failsAfter sellers calls es,
    serve db order failsAfter sellers calls = some (es, s)

theorem Reachable.wellFiled (h : s.Reachable) : s.WellFiled := by
  obtain ⟨db, order, failsAfter, sellers, calls, es, hserve⟩ := h
  obtain ⟨s₀, hstart, hrun⟩ := serve_eq_some.mp hserve
  exact (Machine.run_invariant wellFiled_preserves hrun (fun _ _ => trivial)
    hstart.wellFiled).1

/-- Reachable with every seller lookup answered. -/
def ReachableAnswered (s : Server) : Prop :=
  ∃ db order failsAfter sellers calls es,
    db.BalancesReadable ∧ (∀ n, sellers n = .answered) ∧
      (∀ call ∈ calls, Call.LookupsAnswered call) ∧
      serve db order failsAfter sellers calls = some (es, s)

theorem ReachableAnswered.indexed (h : s.ReachableAnswered) : s.Indexed := by
  obtain ⟨db, order, failsAfter, sellers, calls, es, hreadable, hsellers,
    hcalls, hserve⟩ := h
  obtain ⟨s₀, hstart, hrun⟩ := serve_eq_some.mp hserve
  have hanswered : ∀ e ∈ es, e.input.LookupsAnswered := fun e he =>
    hcalls e.input (Machine.run_input_mem hrun e he)
  exact (Machine.run_invariant indexed_preserves hrun hanswered
    (hstart.indexed hreadable hsellers)).1

/-! ## A small market -/

/-- User 7 sells, user 8 has a hundred to spend, and nothing is listed. -/
def market : Database where
  auctions := []
  users := [⟨7, literal "ann", some 0⟩, ⟨8, literal "bob", some 100⟩]
  redisAvailable := true
  redis := ∅

/-- An item of a given name. -/
def itemNamed (name : String) : Item where
  id := 1
  name := literal name
  description := []
  type := 2
  rarity := 0
  level := 1
  ownerId := 7
  attributes := []

/-- User 7 lists an item for sixty, and the store answers. -/
def offer (name : String) : Call :=
  .registerItem ⟨.done, .answered⟩ 1000 7 (itemNamed name) 60

/-- User 8 buys a listing, and the store answers. -/
def purchase (auctionId : UInt64) : Call :=
  .purchaseItem ⟨.answered, ⟨.answered, .done⟩, ⟨.answered, .done⟩,
    ⟨.done, .done⟩, .answered⟩ 2000 auctionId 8

/-- User 7 cancels a listing, and the store answers. -/
def cancel (auctionId : UInt64) : Call :=
  .cancelListing ⟨⟨.done, .done⟩, .answered⟩ auctionId 7

/-- A search for which the store answers. -/
def search (criteria : SearchCriteria) : Call :=
  .searchItems ⟨.answered, fun _ => default, fun _ => .answered, .done⟩ criteria

/-- The document of the first listing once it is sold. -/
def soldDocument (name : String) : AuctionDocument :=
  itemToBson (soldListing (newListing 1 1000 7 (itemNamed name) 60) 8 2000)

/-- The market after one sale. -/
def soldMarket : Database :=
  { market with auctions := [soldDocument "iron sword"] }

/-- A property that holds at the end of a computed run holds in a reachable
state. -/
theorem exists_serve (p : List ServerEvent → Server → Bool)
    (h : (serve db order failsAfter sellers calls).any (fun r => p r.1 r.2) =
      true) :
    ∃ es s, serve db order failsAfter sellers calls = some (es, s) ∧
      p es s = true := by
  obtain ⟨⟨es, s⟩, hserve, hp⟩ := (Option.any_eq_true _ _).mp h
  exact ⟨es, s, hserve, hp⟩

end Server
end AuctionServer
