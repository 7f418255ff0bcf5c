import AuctionServer.House.Runs

/-!
# Calls and users

Only a purchase touches the users, and it touches nothing but balances.  So no
call changes a username, or makes a user unreadable who could be looked up.
-/

namespace AuctionServer

namespace Database

/-- The users have the names they had, and those that could be looked up still
can. -/
structure KeepsLookups (db db' : Database) : Prop where
  names : ∀ u, db'.usernameOf u = db.usernameOf u
  readable : ∀ u, db.Readable u → db'.Readable u

theorem KeepsLookups.refl (db : Database) : db.KeepsLookups db :=
  ⟨fun _ => rfl, fun _ h => h⟩

variable {db db' db'' : Database}

theorem KeepsLookups.of_users (h : db.KeepsLookups db')
    (husers : db''.users = db'.users) : db.KeepsLookups db'' where
  names u := by
    rw [(SameNames.of_users husers).1, h.names]
  readable u hu := (h.readable u hu).of_users husers

theorem KeepsLookups.setBalance (h : db.KeepsLookups db') (u : UInt32)
    (b : Int32) : db.KeepsLookups (db'.setBalance u b) where
  names v := by
    rw [usernameOf_setBalance, h.names]
  readable v hv := (h.readable v hv).setBalance u b

end Database

namespace Server

/-! ## Calls that move no money -/

theorem afterClose_users (s : Server) (o : ItemUpdateOutcomes)
    (seller : ReadOutcome) (id : UInt64) (new : AuctionItem) :
    (s.afterClose o seller id new).db.users = s.db.users := by
  have hdb : (s.afterClose o seller id new).db =
      (s.db.updateAuctionItem o new).2 := by
    simp only [afterClose]
    split <;> rfl
  rw [hdb, Database.updateAuctionItem_users]

theorem registerItem_users (s : Server) (o : RegisterOutcomes) (now : Time)
    (sellerId : UInt32) (item : Item) (price : UInt32) :
    (s.registerItem o now sellerId item price).2.db.users = s.db.users := by
  by_cases hinsert : o.insert = .done
  · obtain ⟨keys, house, heq, -⟩ :=
      registerItem_of_done s now sellerId item price hinsert
    rw [heq]
    rfl
  · rw [registerItem_of_ne_done s now sellerId item price hinsert]

theorem cancelListing_users (s : Server) (o : CancelOutcomes)
    (auctionId : UInt64) (sellerId : UInt32) :
    (s.cancelListing o auctionId sellerId).2.db.users = s.db.users :=
  @cancelListing_keeps (fun s' => s'.db.users = s.db.users) s o auctionId sellerId
    (fun _ _ _ => afterClose_users s o.item o.seller auctionId _) rfl

theorem expireItems_users (o : UInt64 → ItemUpdateOutcomes) (now : Time)
    (ids : List UInt64) (s : Server) :
    (expireItems o now ids s).2.db.users = s.db.users :=
  @expireItems_keeps o now s (fun s' => s'.db.users = s.db.users)
    (fun _ _ _ _ h => (Database.updateAuctionItem_users _ _ _).trans h) ids
    rfl

theorem processExpiredItems_users (s : Server) (o : SweepOutcomes) (now : Time)
    (order : List UInt64) :
    (s.processExpiredItems o now order).2.db.users = s.db.users :=
  @processExpiredItems_keeps now s (fun s' => s'.db.users = s.db.users) o
    (fun _ _ _ _ h => (Database.updateAuctionItem_users _ _ _).trans h)
    (fun _ _ _ h => h) order rfl

/-- Only a purchase changes the users. -/
theorem step_users [StdSort] {e : ServerEvent} (hfires : machine.Fires e)
    (hwell : e.before.WellFiled)
    (hother : ∀ o now auctionId buyerId,
      e.input ≠ .purchaseItem o now auctionId buyerId) :
    e.after.db.users = e.before.db.users := by
  obtain ⟨s, call, reply, s'⟩ := e
  replace hwell : s.WellFiled := hwell
  cases call with
  | registerItem o now sellerId item price =>
      obtain ⟨-, rfl⟩ := fires_registerItem.mp hfires
      exact registerItem_users s o now sellerId item price
  | searchItems o criteria =>
      obtain ⟨result, hsearch, -⟩ := fires_searchItems.mp hfires
      obtain ⟨redis, rfl⟩ := hwell.searchItems_frame hsearch
      rfl
  | purchaseItem o now auctionId buyerId =>
      exact (hother o now auctionId buyerId rfl).elim
  | cancelListing o auctionId sellerId =>
      obtain ⟨-, rfl⟩ := fires_cancelListing.mp hfires
      exact cancelListing_users s o auctionId sellerId
  | processExpiredItems o now order =>
      obtain ⟨-, -, rfl⟩ := fires_processExpiredItems.mp hfires
      exact processExpiredItems_users s o now order
  | restart order failsAfter sellers =>
      obtain ⟨hrestart, -⟩ := fires_restart.mp hfires
      obtain ⟨-, hdb, -⟩ := restart_loaded False.elim hrestart
      exact congrArg Database.users hdb
  | expireKey key =>
      obtain ⟨-, rfl⟩ := fires_expireKey.mp hfires
      rfl

/-! ## Lookups -/

theorem purchaseItem_keepsLookups {db : Database} {s : Server}
    (h : db.KeepsLookups s.db) (o : PurchaseOutcomes) (now : Time)
    (auctionId : UInt64) (buyerId : UInt32) :
    db.KeepsLookups (s.purchaseItem o now auctionId buyerId).2.db := by
  refine @purchaseItem_keeps (fun s' => db.KeepsLookups s'.db) s o now auctionId
    buyerId ?_ ?_ h
  · intro listing hkeeps
    exact settle_keeps (fun _ u b h => h.setBalance u b) o listing buyerId hkeeps
  · intro listing _ hpaid
    exact hpaid.of_users (afterClose_users _ o.item o.seller auctionId _)

theorem step_keepsLookups [StdSort] {db : Database} {e : ServerEvent}
    (hfires : machine.Fires e) (hwell : e.before.WellFiled)
    (h : db.KeepsLookups e.before.db) : db.KeepsLookups e.after.db := by
  by_cases hpurchase : ∃ o now auctionId buyerId,
      e.input = .purchaseItem o now auctionId buyerId
  · obtain ⟨s, call, reply, s'⟩ := e
    obtain ⟨o, now, auctionId, buyerId, rfl⟩ := hpurchase
    obtain ⟨-, rfl⟩ := fires_purchaseItem.mp hfires
    exact purchaseItem_keepsLookups h o now auctionId buyerId
  · refine h.of_users (step_users hfires hwell ?_)
    intro o now auctionId buyerId heq
    exact hpurchase ⟨o, now, auctionId, buyerId, heq⟩

end Server
end AuctionServer
