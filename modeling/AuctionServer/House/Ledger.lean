import AuctionServer.House.Agreement
import AuctionServer.House.Failures
import AuctionServer.House.Users
import AuctionServer.Store.Amounts

/-!
# The ledger

While no store call fails, memory and documents agree, so the update of a sold
listing always goes through.  A purchase then either moves nothing and reports
false, or moves the price from the buyer to the seller and reports true.  The
balances of a run are therefore the initial ones and the sales of the run.
-/

namespace AuctionServer

/-- No store call fails that a balance or a listing depends on. -/
def Call.Faultless : Call → Prop
  | .registerItem o _ _ _ _ => o.insert = .done
  | .searchItems _ _ => True
  | .purchaseItem o _ _ _ =>
      o.buyer = .answered ∧ o.credit = ⟨.answered, .done⟩ ∧
        o.debit = ⟨.answered, .done⟩ ∧ o.item.update = .done ∧
        ∀ applied, o.item.del ≠ .raised applied
  | .cancelListing o _ _ => o.item.update = .done
  | .processExpiredItems o _ _ => ∀ id, (o.item id).update = .done
  | .restart _ failsAfter _ => failsAfter = none
  | .expireKey _ => True

theorem Call.Faultless.writesDone {call : Call} (h : call.Faultless) :
    call.WritesDone := by
  cases call with
  | purchaseItem o now auctionId buyerId =>
      obtain ⟨-, -, -, hupdate, -⟩ := h
      exact hupdate
  | _ => exact h

/-- A listing sold for its price. -/
structure Sale where
  seller : UInt32
  buyer : UInt32
  price : UInt32
deriving DecidableEq

/-- What a sale is worth to a user. -/
def Sale.gain (u : UInt32) (sale : Sale) : ℤ :=
  (if sale.seller = u then (sale.price.toNat : ℤ) else 0) -
    (if sale.buyer = u then (sale.price.toNat : ℤ) else 0)

namespace Server

/-- The sale an event reports: a purchase that returned true. -/
def sale (e : ServerEvent) : Option Sale :=
  match e.input, e.output with
  | .purchaseItem _ _ auctionId buyerId, .purchased true =>
      (e.before.house.auctionItems[auctionId]?).map fun listing =>
        ⟨listing.sellerId, buyerId, listing.price⟩
  | _, _ => none

/-- The two copies of the listings agree, and the users are solvent. -/
structure Balanced (s : Server) : Prop where
  orderly : s.Orderly
  agrees : Registry.Agrees format s.book
  solvent : s.db.Solvent

theorem Balanced.agreeing {s : Server} (h : s.Balanced) : s.Agreeing :=
  ⟨h.orderly, h.agrees⟩

/-! ## Calls that move money -/

variable {s : Server}

/-- Between two databases the price has moved from buyer to seller. -/
structure Pays (db db' : Database) (sale : Sale) : Prop where
  balances : ∀ u, db'.balanceOf u = db.balanceOf u + sale.gain u
  total : db'.total = db.total
  ids : db'.users.map UserDocument.id = db.users.map UserDocument.id
  solvent : db'.Solvent

/-- Writing both balances moves the price. -/
theorem pays_of_setBalance {db : Database} {sellerId buyerId price : UInt32}
    {seller buyer : UserDocument} {a a' b b' : Int32} (hsolvent : db.Solvent)
    (hother : sellerId ≠ buyerId)
    (hseller : db.findUser sellerId = some seller)
    (ha : seller.balance = some a) (hcredit : a'.toInt = a.toInt + price.toNat)
    (hbuyer : db.findUser buyerId = some buyer)
    (hb : buyer.balance = some b) (hdebit : b'.toInt = b.toInt - price.toNat)
    (hcovered : (price.toNat : ℤ) ≤ b.toInt) :
    Pays db ((db.setBalance sellerId a').setBalance buyerId b')
      ⟨sellerId, buyerId, price⟩ := by
  obtain ⟨a₀, ha₀, hnonneg⟩ := hsolvent.balance hseller
  obtain rfl : a = a₀ := Option.some.inj (ha.symm.trans ha₀)
  have hbuyer' : (db.setBalance sellerId a').findUser buyerId =
      some buyer := by
    rw [Database.findUser_setBalance, if_neg hother]
    exact hbuyer
  have hworth : Database.worth seller = a.toInt := by
    simp [Database.worth, ha]
  have hworth' : Database.worth buyer = b.toInt := by
    simp [Database.worth, hb]
  have hseller₀ : db.balanceOf sellerId = a.toInt := by
    simp [Database.balanceOf, hseller, hworth]
  have hbuyer₀ : db.balanceOf buyerId = b.toInt := by
    simp [Database.balanceOf, hbuyer, hworth']
  refine ⟨?_, ?_, ?_, ?_⟩
  · intro u
    rw [Database.balanceOf_setBalance hbuyer',
      Database.balanceOf_setBalance hseller]
    simp only [Sale.gain]
    by_cases hu : buyerId = u
    · subst u
      rw [if_pos rfl, if_neg hother, if_pos rfl, hdebit, hbuyer₀]
      omega
    · rw [if_neg hu, if_neg hu]
      by_cases hu' : sellerId = u
      · subst u
        rw [if_pos rfl, if_pos rfl, hcredit, hseller₀]
        omega
      · rw [if_neg hu', if_neg hu']
        omega
  · rw [Database.total_setBalance hbuyer', Database.total_setBalance hseller,
      hcredit, hdebit, hworth, hworth']
    omega
  · rw [Database.users_setBalance_ids, Database.users_setBalance_ids]
  · refine (hsolvent.setBalance ?_).setBalance ?_
    · omega
    · omega

/-- A solvent buyer who passes the balance check has the price. -/
theorem buyer_covers {db : Database} {buyerId price : UInt32}
    (hnonneg : db.NonNegative) (hpay : db.CanPay .answered buyerId price) :
    ∃ buyer b, db.findUser buyerId = some buyer ∧ buyer.balance = some b ∧
      price.toInt32.toInt = price.toNat ∧ (price.toNat : ℤ) ≤ b.toInt := by
  obtain ⟨info, hinfo, hpay⟩ := hpay
  cases hfound : db.findUser buyerId with
  | none => simp [Database.getUserInfo, hfound] at hinfo
  | some buyer =>
      obtain ⟨b, hb, hle₀⟩ := hnonneg buyer (Collection.mem_of_findOne hfound)
      simp only [Database.getUserInfo, hfound, hb, Except.ok.injEq,
        Option.some.injEq] at hinfo
      subst hinfo
      obtain ⟨hprice, hle⟩ := price_of_covered hle₀ hpay
      exact ⟨buyer, b, rfl, hb, hprice, hle⟩

/-- A credit that applies is followed by a debit that applies, and together
they move the price. -/
theorem settle_pays {db : Database} {o : PurchaseOutcomes}
    {listing : AuctionItem} {buyerId : UInt32} (hsolvent : db.Solvent)
    (hother : listing.sellerId ≠ buyerId) (hbuyer : o.buyer = .answered)
    (hcredited : o.credit = ⟨.answered, .done⟩)
    (hdebited : o.debit = ⟨.answered, .done⟩)
    (hcredit : CreditApplies db o listing buyerId) :
    db.BalanceChanges o.debit buyerId (-listing.price.toInt32) ∧
      Pays db (settle db o listing buyerId).2
        ⟨listing.sellerId, buyerId, listing.price⟩ := by
  obtain ⟨hpay, hchanges⟩ := id hcredit
  rw [hbuyer] at hpay
  obtain ⟨buyer, b, hfound, hb, hprice, hle⟩ :=
    buyer_covers hsolvent.nonneg hpay
  obtain ⟨-, -, hamount, seller, a, hseller, ha, hsum⟩ := hchanges
  obtain ⟨a₀, ha₀, hnonneg⟩ := hsolvent.balance hseller
  obtain rfl : a = a₀ := Option.some.inj (ha.symm.trans ha₀)
  have hcreditsum : (a + listing.price.toInt32).toInt =
      a.toInt + listing.price.toNat := by
    rw [toInt_add_of_nonneg hnonneg hsum, hprice]
  have hdebitsum : (b + -listing.price.toInt32).toInt =
      b.toInt - listing.price.toNat := by
    rw [toInt_sub_of_le (by omega) (by omega), hprice]
  have hdebit : db.BalanceChanges o.debit buyerId (-listing.price.toInt32) := by
    rw [hdebited]
    refine ⟨rfl, rfl, ?_, buyer, b, hfound, hb, ?_⟩
    · simpa using hamount
    · rw [neg_iff_toInt_neg, hdebitsum]
      omega
  refine ⟨hdebit, ?_⟩
  have hsettled : (settle db o listing buyerId).2 =
      (db.setBalance listing.sellerId (a + listing.price.toInt32)).setBalance
        buyerId (b + -listing.price.toInt32) := by
    obtain ⟨seller', balance, hseller', hbalance, heq⟩ :=
      settle_of_credit hcredit
    obtain rfl : seller = seller' :=
      Option.some.inj (hseller.symm.trans hseller')
    obtain rfl : a = balance := Option.some.inj (ha.symm.trans hbalance)
    have hfound' : (db.setBalance listing.sellerId
        (a + listing.price.toInt32)).findUser buyerId = some buyer := by
      rw [Database.findUser_setBalance, if_neg hother]
      exact hfound
    have hdebit' : (db.setBalance listing.sellerId
        (a + listing.price.toInt32)).BalanceChanges o.debit buyerId
          (-listing.price.toInt32) :=
      (Database.balanceChanges_setBalance_of_ne hother).mpr hdebit
    rw [heq, if_pos (by rw [hcredited]),
      Database.updateUserBalance_of_changes hdebit' hfound' hb]
  rw [hsettled]
  exact pays_of_setBalance hsolvent hother hseller ha hcreditsum hfound hb
    hdebitsum hle

/-- A faultless purchase either moves nothing and reports false, or is a
sale. -/
theorem purchaseItem_faultless (h : s.Balanced) {o : PurchaseOutcomes}
    {now : Time} {auctionId : UInt64} {buyerId : UInt32}
    (hfaultless : Call.Faultless (.purchaseItem o now auctionId buyerId)) :
    (s.purchaseItem o now auctionId buyerId = (false, s)) ∨
      ∃ listing, s.house.auctionItems[auctionId]? = some listing ∧
        (s.purchaseItem o now auctionId buyerId).1 = true ∧
        Pays s.db (s.purchaseItem o now auctionId buyerId).2.db
          ⟨listing.sellerId, buyerId, listing.price⟩ := by
  obtain ⟨hbuyer, hcredited, hdebited, hupdate, hdel⟩ := hfaultless
  by_cases hoffer : ∃ listing, s.OnOffer auctionId buyerId listing
  · obtain ⟨listing, hoffer⟩ := hoffer
    obtain ⟨hlisting, hactive, hother⟩ := id hoffer
    by_cases hcredit : CreditApplies s.db o listing buyerId
    · right
      obtain ⟨hdebit, hpays⟩ := settle_pays h.solvent hother hbuyer hcredited
        hdebited hcredit
      have hsucceeds : s.db.ItemUpdateSucceeds o.item
          (soldListing listing buyerId now) :=
        h.agreeing.itemUpdateSucceeds hupdate hdel hlisting hactive
          (by simp [soldListing]) rfl
      have htrue := (purchaseItem_fst_eq_true hoffer hcredit).mpr
        ⟨by rw [hcredited], hdebit, by rw [hdebited], hsucceeds⟩
      refine ⟨listing, hlisting, htrue, ?_⟩
      obtain ⟨listing', hoffer', -, -, hafter⟩ := purchaseItem_eq_true htrue
      obtain rfl : listing = listing' :=
        Option.some.inj (hlisting.symm.trans hoffer'.1)
      have husers : (s.purchaseItem o now auctionId buyerId).2.db.users =
          (settle s.db o listing buyerId).2.users := by
        rw [hafter, afterClose_users]
      constructor
      · intro u
        rw [Database.balanceOf_of_users husers, hpays.balances]
      · rw [← hpays.total]
        simp only [Database.total, husers]
      · rw [husers, hpays.ids]
      · exact hpays.solvent.of_users husers
    · left
      rw [purchaseItem_of_onOffer o now hoffer, settle_of_not_credit hcredit]
      rfl
  · left
    exact purchaseItem_of_not_onOffer o now fun listing hl => hoffer ⟨listing, hl⟩

/-! ## Runs -/

variable [StdSort]

/-- A faultless call moves no money and reports no sale, or it reports the
sale whose price it moves. -/
theorem step_ledger {e : ServerEvent} (hfires : machine.Fires e)
    (h : e.before.Balanced) (hfaultless : e.input.Faultless) :
    (e.after.db.users = e.before.db.users ∧ sale e = none) ∨
      ∃ x, sale e = some x ∧ Pays e.before.db e.after.db x := by
  obtain ⟨s, call, reply, s'⟩ := e
  replace h : s.Balanced := h
  cases call with
  | purchaseItem o now auctionId buyerId =>
      obtain ⟨rfl, rfl⟩ := fires_purchaseItem.mp hfires
      rcases purchaseItem_faultless h hfaultless with
        hsame | ⟨listing, hlisting, htrue, hpays⟩
      · left
        simp [hsame, sale]
      · right
        refine ⟨_, ?_, hpays⟩
        simp [sale, htrue, hlisting]
  | _ =>
      left
      refine ⟨step_users hfires h.orderly.wellFiled (by simp), ?_⟩
      simp [sale]

theorem balanced_preserves :
    machine.Preserves
      (fun e => e.input.Faultless ∧ e.before.Undisturbed e.input)
      Balanced := by
  intro e hfires hcall h
  obtain ⟨hfaultless, hundisturbed⟩ := hcall
  have hagreeing := agreeing_preserves e hfires
    ⟨hfaultless.writesDone, hundisturbed⟩ h.agreeing
  refine ⟨hagreeing.orderly, hagreeing.agrees, ?_⟩
  rcases step_ledger hfires h hfaultless with ⟨husers, -⟩ | ⟨x, -, hpays⟩
  · exact h.solvent.of_users husers
  · exact hpays.solvent

theorem sameUsers_preserves (ids : List Int32) (sum : ℤ) :
    machine.Preserves
      (fun e => e.input.Faultless ∧ e.before.Undisturbed e.input)
      fun s => s.Balanced ∧ s.db.users.map UserDocument.id = ids ∧
        s.db.total = sum := by
  intro e hfires hcall h
  obtain ⟨hbalanced, hids, hsum⟩ := h
  refine ⟨balanced_preserves e hfires hcall hbalanced, ?_⟩
  rcases step_ledger hfires hbalanced hcall.1 with
    ⟨husers, -⟩ | ⟨x, -, hpays⟩
  · rw [← hids, ← hsum]
    simp only [Database.total, husers, and_self]
  · exact ⟨hpays.ids.trans hids, hpays.total.trans hsum⟩

variable {db : Database} {order : List AuctionDocument}
  {sellers : ℕ → ReadOutcome}

omit [StdSort] in
/-- A start that loads everything is balanced when the users are solvent. -/
theorem Starts.balanced (hdistinct : (db.auctions.map AuctionDocument.id).Nodup)
    (hlast : ∀ doc ∈ db.auctions, doc.id.toUInt64 ≠ -1) (hsolvent : db.Solvent)
    (hstart : Starts db order none sellers s) : s.Balanced := by
  have hagreeing := hstart.agreeing hdistinct hlast
  obtain ⟨-, hdb, -⟩ := restart_loaded False.elim hstart
  exact ⟨hagreeing.orderly, hagreeing.agrees, by rw [hdb]; exact hsolvent⟩

omit [StdSort] in
theorem sum_filterMap {α β : Type} (f : α → Option β) (g : β → ℤ)
    (as : List α) :
    ((as.filterMap f).map g).sum = (as.map fun a => (f a).elim 0 g).sum := by
  induction as with
  | nil => rfl
  | cons a as ih =>
      cases hfa : f a with
      | none => simp [hfa, ih]
      | some b => simp [hfa, ih]

/-- After a run, every balance is the initial one with the sales of the run,
the users are solvent, and the total is the same. -/
structure LedgerHolds (db : Database) (es : List ServerEvent) (s : Server) :
    Prop where
  balances : ∀ u,
    s.db.balanceOf u = db.balanceOf u + ((es.filterMap sale).map (Sale.gain u)).sum
  solvent : s.db.Solvent
  users : s.db.users.map UserDocument.id = db.users.map UserDocument.id
  total : s.db.total = db.total

omit [StdSort] in
theorem market_solvent : market.Solvent := by
  constructor
  · decide
  · intro doc hdoc
    simp only [market, List.mem_cons, List.not_mem_nil, or_false] at hdoc
    rcases hdoc with rfl | rfl
    · exact ⟨0, rfl, by decide⟩
    · exact ⟨100, rfl, by decide⟩

omit [StdSort] in
theorem faultless_offer (name : String) : (offer name).Faultless := rfl

omit [StdSort] in
theorem faultless_purchase (auctionId : UInt64) :
    (purchase auctionId).Faultless :=
  ⟨rfl, rfl, rfl, rfl, by simp⟩

/-- A market with a sold listing of id 0, and one of the last id. -/
def wrappedMarket : Database :=
  { market with
    auctions :=
      [itemToBson (soldListing (newListing 0 1000 7 (itemNamed "iron sword") 60)
          8 2000),
        itemToBson (soldListing (newListing (-1) 900 7 (itemNamed "oak shield") 5)
          8 950)] }

end Server
end AuctionServer
