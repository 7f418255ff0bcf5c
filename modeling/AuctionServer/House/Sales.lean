import AuctionServer.House.Ledger

/-!
# When a purchase goes through

Without store errors a purchase is decided by the listing and by the two
balances.  A balance update that writes the balance already stored counts as
failed, which is the one case where the decision is not the obvious one: a
listing of price zero cannot be sold.
-/

namespace AuctionServer

theorem toInt_add_of_lt {a b : Int32} (ha : 0 ≤ a.toInt) (hb : 0 ≤ b.toInt)
    (hlt : a.toInt + b.toInt < 2 ^ 31) :
    (a + b).toInt = a.toInt + b.toInt := by
  rw [Int32.toInt_add, Int.bmod_def]
  omega

namespace Server

variable {s : Server} {db : Database} {o : PurchaseOutcomes}
  {listing : AuctionItem} {auctionId : UInt64} {buyerId : UInt32}

/-- Seller and buyer exist, the buyer has the price, and the seller's balance
has room for it. -/
def Affordable (db : Database) (listing : AuctionItem) (buyerId : UInt32) :
    Prop :=
  ∃ seller buyer, db.findUser listing.sellerId = some seller ∧
    db.findUser buyerId = some buyer ∧
    (listing.price.toNat : ℤ) ≤ Database.worth buyer ∧
    Database.worth seller + listing.price.toNat ≤ 2 ^ 31 - 1

/-- The credit of an answered purchase applies when the purchase is affordable
and costs something. -/
theorem creditApplies_iff (hnonneg : db.NonNegative) (ho : o.Answered) :
    CreditApplies db o listing buyerId ↔
      Affordable db listing buyerId ∧ listing.price ≠ 0 := by
  obtain ⟨hbuyer, hcredit, -, -, -⟩ := ho
  constructor
  · rintro ⟨hpay, -, -, hamount, seller, a, hseller, ha, hsum⟩
    rw [hbuyer] at hpay
    obtain ⟨buyer, b, hfound, hb, hprice, hle⟩ := buyer_covers hnonneg hpay
    obtain ⟨a₀, ha₀, hle₀⟩ := hnonneg seller (Collection.mem_of_findOne hseller)
    obtain rfl : a = a₀ := Option.some.inj (ha.symm.trans ha₀)
    have hexact : (a + listing.price.toInt32).toInt =
        a.toInt + listing.price.toNat := by
      rw [toInt_add_of_nonneg hle₀ hsum, hprice]
    have hlt := (a + listing.price.toInt32).toInt_lt
    refine ⟨⟨seller, buyer, hseller, hfound, ?_, ?_⟩, ?_⟩
    · simp only [Database.worth, hb, Option.elim_some]
      exact hle
    · simp only [Database.worth, ha, Option.elim_some]
      omega
    · rintro hzero
      exact hamount (by rw [hzero]; rfl)
  · rintro ⟨⟨seller, buyer, hseller, hfound, hcovers, hroom⟩, hprice⟩
    obtain ⟨a, ha, ha₀⟩ := hnonneg seller (Collection.mem_of_findOne hseller)
    obtain ⟨b, hb, hb₀⟩ := hnonneg buyer (Collection.mem_of_findOne hfound)
    simp only [Database.worth, ha, hb, Option.elim_some] at hcovers hroom
    have hlt := b.toInt_lt
    have hexact : listing.price.toInt32.toInt = listing.price.toNat :=
      toInt_toInt32_of_lt (by omega)
    refine ⟨⟨⟨buyerId, buyer.username, b.toUInt32⟩, ?_, ?_⟩, ?_⟩
    · simp [Database.getUserInfo, hbuyer, hfound, hb]
    · rw [UInt32.not_lt, UInt32.le_iff_toNat_le]
      have hvalue := toNat_toUInt32_of_nonneg hb₀
      simp only
      omega
    · rw [hcredit]
      refine ⟨rfl, rfl, ?_, seller, a, hseller, ha, ?_⟩
      · intro hzero
        rw [hzero, Int32.toInt_zero] at hexact
        exact hprice (UInt32.toNat_inj.mp (by simpa using hexact.symm))
      · rw [neg_iff_toInt_neg, toInt_add_of_lt ha₀ (by omega) (by omega)]
        omega

/-- The document of every listing in memory holds what memory has. -/
def ListingsStored (s : Server) : Prop :=
  ∀ id item, s.house.auctionItems[id]? = some item →
    ∃ doc, s.db.findAuction id = some doc ∧ bsonToItem doc = item

theorem itemUpdateSucceeds_of_stored (hwell : s.WellFiled)
    (hstored : s.ListingsStored) {o : ItemUpdateOutcomes}
    (hupdate : o.update = .done) (hdel : ∀ applied, o.del ≠ .raised applied)
    {id : UInt64} {old new : AuctionItem}
    (hold : s.house.auctionItems[id]? = some old)
    (hid : new.id = old.id) (hne : new ≠ old) :
    s.db.ItemUpdateSucceeds o new := by
  refine ⟨hupdate, ?_, fun _ => hdel⟩
  obtain ⟨doc, hdoc, hdecode⟩ := hstored id old hold
  have hkeyed : new.id = id := hid.trans (hwell.keyed id old hold)
  refine Collection.modifiesOne_eq_true.mpr ⟨doc, ?_, ?_⟩
  · rw [hkeyed]
    exact hdoc
  · intro hsame
    have hitem := congrArg bsonToItem hsame
    rw [bsonToItem_itemToBson, hdecode] at hitem
    exact hne hitem

/-- What a purchase should depend on: the listing is open, the buyer is not
its seller, and the purchase is affordable. -/
def Purchasable (s : Server) (auctionId : UInt64) (buyerId : UInt32) : Prop :=
  ∃ listing, s.OnOffer auctionId buyerId listing ∧
    Affordable s.db listing buyerId

/-- Without store errors, what is purchasable is sold if it costs something. -/
theorem purchaseItem_answered (hwell : s.WellFiled)
    (hstored : s.ListingsStored) (hnonneg : s.db.NonNegative)
    (ho : o.Answered) (now : Time) :
    (s.purchaseItem o now auctionId buyerId).1 = true ↔
      ∃ listing, s.OnOffer auctionId buyerId listing ∧
        Affordable s.db listing buyerId ∧ listing.price ≠ 0 := by
  obtain ⟨-, hcredited, hdebited, ⟨hupdate, hdel⟩, -⟩ := id ho
  constructor
  · intro htrue
    obtain ⟨listing, hoffer, hsettled, -⟩ := purchaseItem_eq_true htrue
    refine ⟨listing, hoffer, ?_⟩
    rw [← creditApplies_iff hnonneg ho]
    by_contra hnot
    rw [settle_of_not_credit hnot] at hsettled
    cases hsettled
  · rintro ⟨listing, hoffer, hafford⟩
    have hcredit := (creditApplies_iff hnonneg ho).mpr hafford
    obtain ⟨⟨seller, buyer, -, hfound, hcovers, -⟩, hprice⟩ := hafford
    obtain ⟨b, hb, hb₀⟩ := hnonneg buyer (Collection.mem_of_findOne hfound)
    simp only [Database.worth, hb, Option.elim_some] at hcovers
    have hlt := b.toInt_lt
    have hexact : listing.price.toInt32.toInt = listing.price.toNat :=
      toInt_toInt32_of_lt (by omega)
    have hdifference : (b + -listing.price.toInt32).toInt =
        b.toInt - listing.price.toNat := by
      rw [toInt_sub_of_le (by omega) (by omega), hexact]
    rw [purchaseItem_fst_eq_true hoffer hcredit]
    refine ⟨by rw [hcredited], ?_, by rw [hdebited], ?_⟩
    · rw [hdebited]
      refine ⟨rfl, rfl, ?_, buyer, b, hfound, hb, ?_⟩
      · obtain ⟨-, -, -, hamount, -⟩ := hcredit
        simpa using hamount
      · rw [neg_iff_toInt_neg, hdifference]
        omega
    · have hid : (soldListing listing buyerId now).id = listing.id := rfl
      refine itemUpdateSucceeds_of_stored hwell hstored hupdate hdel hoffer.1
        hid ?_
      intro hsame
      have hstatus := congrArg AuctionItem.status hsame
      rw [hoffer.2.1] at hstatus
      cases hstatus

/-- The listing under the id costs nothing. -/
def CostsNothing (s : Server) (auctionId : UInt64) : Prop :=
  ∃ listing, s.house.auctionItems[auctionId]? = some listing ∧
    listing.price = 0

/-- The store calls of a purchase that all succeed. -/
def allAnswered : PurchaseOutcomes where
  buyer := .answered
  credit := ⟨.answered, .done⟩
  debit := ⟨.answered, .done⟩
  item := ⟨.done, .done⟩
  seller := .answered

theorem allAnswered_answered : allAnswered.Answered :=
  ⟨rfl, rfl, rfl, ⟨rfl, by simp [allAnswered]⟩, rfl⟩

/-- User 7 lists a sword at a price. -/
def offerFor (price : UInt32) : Call :=
  .registerItem ⟨.done, .answered⟩ 1000 7 (itemNamed "iron sword") price

/-- The sword is the one listing, its document is stored, and nobody has been
paid yet. -/
def offered (price : UInt32) (s : Server) : Bool :=
  decide (s.house.auctionItems.toList =
      [(1, newListing 1 1000 7 (itemNamed "iron sword") price)] ∧
    (s.db.findAuction 1).map bsonToItem =
      some (newListing 1 1000 7 (itemNamed "iron sword") price) ∧
    s.db.users = market.users)

theorem offered_item {price : UInt32} (h : offered price s = true)
    {id : UInt64} {item : AuctionItem} :
    s.house.auctionItems[id]? = some item ↔
      id = 1 ∧ item = newListing 1 1000 7 (itemNamed "iron sword") price := by
  obtain ⟨hlist, -, -⟩ := of_decide_eq_true h
  rw [← Std.ExtTreeMap.mem_toList_iff_getElem?_eq_some, hlist]
  simp

theorem listingsStored_of_offered {price : UInt32}
    (h : offered price s = true) : s.ListingsStored := by
  intro id item hitem
  obtain ⟨rfl, rfl⟩ := (offered_item h).mp hitem
  obtain ⟨-, hstored, -⟩ := of_decide_eq_true h
  exact Option.map_eq_some_iff.mp hstored

theorem nonNegative_of_offered {price : UInt32}
    (h : offered price s = true) : s.db.NonNegative := by
  obtain ⟨-, -, husers⟩ := of_decide_eq_true h
  rw [Database.NonNegative, husers]
  exact market_solvent.nonneg

end Server
end AuctionServer
