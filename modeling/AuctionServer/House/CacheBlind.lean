import AuctionServer.House.SharedEntries

/-!
# What the cache cannot influence

Only searches read the cache.  Two servers that differ in their caches at most
are taken by every other call, made with the same store outcomes, to servers
that differ in their caches at most; and so they are by two searches.
-/

namespace AuctionServer

/-- The two databases differ in the contents of their caches at most. -/
structure Database.SameStores (db db' : Database) : Prop where
  auctions : db'.auctions = db.auctions
  users : db'.users = db.users
  redisAvailable : db'.redisAvailable = db.redisAvailable

namespace Database

variable {db db' : Database}

theorem SameStores.updateAuctionItem (h : db.SameStores db')
    (o : ItemUpdateOutcomes) (item : AuctionItem) :
    (db.updateAuctionItem o item).2.SameStores
      (db'.updateAuctionItem o item).2 where
  auctions := by
    simp only [updateAuctionItem_auctions, setAuction, h.auctions]
  users := by
    simp only [updateAuctionItem_users, h.users]
  redisAvailable := by
    simp only [updateAuctionItem_redisAvailable, h.redisAvailable]

theorem SameStores.itemUpdateSucceeds (h : db.SameStores db')
    (o : ItemUpdateOutcomes) (item : AuctionItem) :
    db'.ItemUpdateSucceeds o item ↔ db.ItemUpdateSucceeds o item := by
  simp only [ItemUpdateSucceeds, modifiesAuction, h.auctions, h.redisAvailable]

theorem SameStores.findUser (h : db.SameStores db') (u : UInt32) :
    db'.findUser u = db.findUser u := by
  simp only [Database.findUser, h.users]

theorem SameStores.setBalance (h : db.SameStores db') (u : UInt32) (b : Int32) :
    (db.setBalance u b).SameStores (db'.setBalance u b) where
  auctions := h.auctions
  users := by
    simp only [Database.setBalance, h.users]
  redisAvailable := h.redisAvailable

theorem SameStores.balanceChanges (h : db.SameStores db') (o : BalanceOutcomes)
    (u : UInt32) (amount : Int32) :
    db'.BalanceChanges o u amount ↔ db.BalanceChanges o u amount := by
  simp only [BalanceChanges, h.findUser]

theorem SameStores.updateUserBalance (h : db.SameStores db')
    (o : BalanceOutcomes) (u : UInt32) (amount : Int32) :
    (db'.updateUserBalance o u amount).1 = (db.updateUserBalance o u amount).1 ∧
      (db.updateUserBalance o u amount).2.SameStores
        (db'.updateUserBalance o u amount).2 := by
  by_cases hchanges : db.BalanceChanges o u amount
  · have hchanges' := (h.balanceChanges o u amount).mpr hchanges
    obtain ⟨-, -, -, doc, balance, hdoc, hbalance, -⟩ := id hchanges
    rw [updateUserBalance_of_changes hchanges hdoc hbalance,
      updateUserBalance_of_changes hchanges' ((h.findUser u).trans hdoc) hbalance]
    exact ⟨rfl, h.setBalance u _⟩
  · have hchanges' := fun hyes => hchanges ((h.balanceChanges o u amount).mp hyes)
    rw [updateUserBalance_of_not_changes hchanges,
      updateUserBalance_of_not_changes hchanges']
    exact ⟨rfl, h⟩

theorem SameStores.creditApplies (h : db.SameStores db')
    (o : Server.PurchaseOutcomes) (listing : AuctionItem) (buyerId : UInt32) :
    Server.CreditApplies db' o listing buyerId ↔
      Server.CreditApplies db o listing buyerId := by
  simp only [Server.CreditApplies, CanPay, getUserInfo_of_users h.users,
    h.balanceChanges]

/-- A purchase settles over the users alone. -/
theorem SameStores.settle (h : db.SameStores db') (o : Server.PurchaseOutcomes)
    (listing : AuctionItem) (buyerId : UInt32) :
    (Server.settle db' o listing buyerId).1 =
        (Server.settle db o listing buyerId).1 ∧
      (Server.settle db o listing buyerId).2.SameStores
        (Server.settle db' o listing buyerId).2 := by
  by_cases hcredit : Server.CreditApplies db o listing buyerId
  · have hcredit' := (h.creditApplies o listing buyerId).mpr hcredit
    obtain ⟨doc, balance, hdoc, hbalance, hsettle⟩ := Server.settle_of_credit hcredit
    obtain ⟨doc', balance', hdoc', hbalance', hsettle'⟩ :=
      Server.settle_of_credit hcredit'
    obtain rfl : doc = doc' := Option.some.inj
      (hdoc.symm.trans ((h.findUser _).symm.trans hdoc'))
    obtain rfl : balance = balance' :=
      Option.some.inj (hbalance.symm.trans hbalance')
    have hpaid := h.setBalance listing.sellerId (balance + listing.price.toInt32)
    rw [hsettle, hsettle']
    by_cases hdone : o.credit.update = .done
    · rw [if_pos hdone, if_pos hdone]
      exact hpaid.updateUserBalance o.debit buyerId (-listing.price.toInt32)
    · rw [if_neg hdone, if_neg hdone]
      exact ⟨rfl, hpaid⟩
  · have hcredit' := fun hyes => hcredit ((h.creditApplies o listing buyerId).mp hyes)
    rw [Server.settle_of_not_credit hcredit, Server.settle_of_not_credit hcredit']
    exact ⟨rfl, h⟩

end Database

namespace Server

variable {s t : Server}

theorem sameButCache_iff :
    s.SameButCache t ↔ t.house = s.house ∧ s.db.SameStores t.db := by
  constructor
  · rintro ⟨redis, rfl⟩
    exact ⟨rfl, rfl, rfl, rfl⟩
  · rintro ⟨hhouse, hauctions, husers, havailable⟩
    refine ⟨t.db.redis, ?_⟩
    obtain ⟨house, auctions, users, available, redis⟩ := t
    simp only at hhouse hauctions husers havailable
    subst hhouse hauctions husers havailable
    rfl

theorem updateIndices_of_users {db db' : Database} (h : db'.users = db.users)
    (house : AuctionHouse) (seller : ReadOutcome) (item : AuctionItem) :
    house.updateIndices db' seller item = house.updateIndices db seller item := by
  simp only [AuctionHouse.updateIndices, Database.getUserInfo_of_users h]

theorem removeFromIndices_of_users {db db' : Database}
    (h : db'.users = db.users) (house : AuctionHouse) (seller : ReadOutcome)
    (item : AuctionItem) :
    house.removeFromIndices db' seller item =
      house.removeFromIndices db seller item := by
  simp only [AuctionHouse.removeFromIndices, Database.getUserInfo_of_users h]

theorem SameButCache.afterClose (h : s.SameButCache t) (o : ItemUpdateOutcomes)
    (seller : ReadOutcome) (id : UInt64) (new : AuctionItem) :
    (s.afterClose o seller id new).SameButCache
      (t.afterClose o seller id new) := by
  obtain ⟨hhouse, hstores⟩ := sameButCache_iff.mp h
  have hafter := hstores.updateAuctionItem o new
  have hsucceeds := hstores.itemUpdateSucceeds o new
  rw [← Database.updateAuctionItem_fst_eq_true,
    ← Database.updateAuctionItem_fst_eq_true] at hsucceeds
  rw [sameButCache_iff]
  by_cases hok : (s.db.updateAuctionItem o new).1 = .ok true
  · simp only [Server.afterClose, hok, hsucceeds.mpr hok, hhouse]
    exact ⟨by rw [removeFromIndices_of_users hafter.users], hafter⟩
  · have hclosed : ∀ u : Server, (u.db.updateAuctionItem o new).1 ≠ .ok true →
        u.afterClose o seller id new =
          { house := u.house.setItem id new
            db := (u.db.updateAuctionItem o new).2 } := by
      intro u hu
      simp only [Server.afterClose]
    rw [hclosed s hok, hclosed t (fun hok' => hok (hsucceeds.mp hok'))]
    exact ⟨by rw [hhouse], hafter⟩

theorem SameButCache.registerItem (h : s.SameButCache t) (o : RegisterOutcomes)
    (now : Time) (sellerId : UInt32) (item : Item) (price : UInt32) :
    (s.registerItem o now sellerId item price).2.SameButCache
      (t.registerItem o now sellerId item price).2 := by
  obtain ⟨hhouse, hstores⟩ := sameButCache_iff.mp h
  rw [sameButCache_iff]
  by_cases hinsert : o.insert = .done
  · have hstored : (s.stored now sellerId item price).SameStores
        (t.stored now sellerId item price) := by
      refine ⟨?_, hstores.users, hstores.redisAvailable⟩
      simp only [stored, hstores.auctions, hhouse]
    have hsame : t.filing o now sellerId item price =
        s.filing o now sellerId item price := by
      rw [filing, filing, accepted, accepted, hhouse,
        updateIndices_of_users hstored.users]
    rcases hfiling : s.filing o now sellerId item price with ⟨result, house⟩
    rw [registerItem_of_filing s now sellerId item price hinsert hfiling,
      registerItem_of_filing t now sellerId item price hinsert
        (hsame.trans hfiling)]
    exact ⟨by rw [hhouse], hstored⟩
  · rw [registerItem_of_ne_done s now sellerId item price hinsert,
      registerItem_of_ne_done t now sellerId item price hinsert]
    refine ⟨by rw [hhouse], ?_, hstores.users, hstores.redisAvailable⟩
    simp only [hstores.auctions, hhouse]

theorem SameButCache.purchaseItem (h : s.SameButCache t) (o : PurchaseOutcomes)
    (now : Time) (auctionId : UInt64) (buyerId : UInt32) :
    (s.purchaseItem o now auctionId buyerId).2.SameButCache
      (t.purchaseItem o now auctionId buyerId).2 := by
  obtain ⟨hhouse, hstores⟩ := sameButCache_iff.mp h
  by_cases hoffer : ∃ listing, s.OnOffer auctionId buyerId listing
  · obtain ⟨listing, hoffer⟩ := hoffer
    have hoffer' : t.OnOffer auctionId buyerId listing := by
      simpa only [OnOffer, hhouse] using hoffer
    obtain ⟨hsettled, hpaid⟩ := hstores.settle o listing buyerId
    have hbetween : SameButCache
        { s with db := (settle s.db o listing buyerId).2 }
        { t with db := (settle t.db o listing buyerId).2 } :=
      sameButCache_iff.mpr ⟨hhouse, hpaid⟩
    rw [purchaseItem_of_onOffer o now hoffer, purchaseItem_of_onOffer o now hoffer',
      hsettled]
    by_cases htrue : (settle s.db o listing buyerId).1 = true
    · rw [if_pos htrue, if_pos htrue, (handOver_eq _ _ _ _ _ _ _).1,
        (handOver_eq _ _ _ _ _ _ _).1]
      exact hbetween.afterClose o.item o.seller auctionId _
    · rw [if_neg htrue, if_neg htrue]
      exact hbetween
  · have hnone : ∀ u : Server, u.house = s.house →
        u.purchaseItem o now auctionId buyerId = (false, u) := by
      intro u hu
      apply purchaseItem_of_not_onOffer
      intro listing hl
      exact hoffer ⟨listing, by simpa only [OnOffer, hu] using hl⟩
    rw [hnone s rfl, hnone t hhouse]
    exact h

theorem SameButCache.cancelListing (h : s.SameButCache t) (o : CancelOutcomes)
    (auctionId : UInt64) (sellerId : UInt32) :
    (s.cancelListing o auctionId sellerId).2.SameButCache
      (t.cancelListing o auctionId sellerId).2 := by
  obtain ⟨hhouse, -⟩ := sameButCache_iff.mp h
  by_cases hcancellable : ∃ listing, s.Cancellable auctionId sellerId listing
  · obtain ⟨listing, hcancellable⟩ := hcancellable
    have hcancellable' : t.Cancellable auctionId sellerId listing := by
      simpa only [Cancellable, hhouse] using hcancellable
    rw [(cancelListing_of_cancellable o hcancellable).1,
      (cancelListing_of_cancellable o hcancellable').1]
    exact h.afterClose o.item o.seller auctionId _
  · have hnone : ∀ u : Server, u.house = s.house →
        u.cancelListing o auctionId sellerId = (.ok false, u) := by
      intro u hu
      apply cancelListing_of_not_cancellable
      intro listing hl
      exact hcancellable ⟨listing, by simpa only [Cancellable, hu] using hl⟩
    rw [hnone s rfl, hnone t hhouse]
    exact h

theorem SameButCache.refl (s : Server) : s.SameButCache s :=
  ⟨s.db.redis, rfl⟩

theorem SameButCache.symm (h : s.SameButCache t) : t.SameButCache s := by
  obtain ⟨redis, rfl⟩ := h
  exact ⟨s.db.redis, rfl⟩

variable [StdSort]

/-- With the price bounds in order a search of a well-filed house is defined,
and it changes the cache at most. -/
theorem WellFiled.searchItems_defined (h : s.WellFiled) (o : SearchOutcomes)
    {criteria : SearchCriteria} (hprices : criteria.PricesOrdered) :
    ∃ result s', s.searchItems o criteria = some (result, s') ∧
      s.SameButCache s' := by
  have hdefined : ∃ found, s.searchItems o criteria = some found := by
    rw [← Option.isSome_iff_exists]
    cases hcached : s.cachedResults o criteria with
    | some results => simp [searchItems, hcached]
    | none =>
        obtain ⟨result, hcomputed⟩ :=
          @WellFiled.searchUncached_some _ s o.sellers criteria h hprices
        cases result with
        | error e => simp [searchItems, hcached, hcomputed]
        | ok results => simp [searchItems, hcached, hcomputed]
  obtain ⟨⟨result, s'⟩, hsearch⟩ := hdefined
  exact ⟨result, s', hsearch, h.searchItems_frame hsearch⟩

end Server
end AuctionServer
