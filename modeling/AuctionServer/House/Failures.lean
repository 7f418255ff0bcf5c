import AuctionServer.House.Runs

/-!
# Operations that fail halfway

Neither a purchase nor a cancellation nor a sweep undoes what it has done when
a later store call fails: the transaction's `rollback` is empty, and the
status in memory changes before the update.  For each of the three, this is
when a failure leaves no trace.
-/

namespace AuctionServer

open AuctionHouse (SameListings)

namespace Server

variable {s : Server}

/-! ## Purchases -/

/-- Balances, documents, listings and indices are the same. -/
def Unchanged (s s' : Server) : Prop :=
  s'.db.users = s.db.users ∧ s'.db.auctions = s.db.auctions ∧
    s'.house = s.house

/-- Once the purchase reaches its credit and the credit takes effect, no later
store call fails. -/
def PurchaseCompletes (s : Server) (o : PurchaseOutcomes) (now : Time)
    (auctionId : UInt64) (buyerId : UInt32) : Prop :=
  ∀ listing, s.OnOffer auctionId buyerId listing →
    CreditApplies s.db o listing buyerId →
      o.credit.update = .done ∧
        s.db.BalanceChanges o.debit buyerId (-listing.price.toInt32) ∧
        o.debit.update = .done ∧
        s.db.ItemUpdateSucceeds o.item (soldListing listing buyerId now)

theorem itemUpdateSucceeds_settle {db : Database} {o : PurchaseOutcomes}
    {listing : AuctionItem} {buyerId : UInt32} {item : AuctionItem} :
    (settle db o listing buyerId).2.ItemUpdateSucceeds o.item item ↔
      db.ItemUpdateSucceeds o.item item := by
  obtain ⟨hframe, -⟩ := settle_frame db o listing buyerId
  rw [hframe]
  exact Iff.rfl

/-- The stages of a purchase on offer, read off its result. -/
theorem purchaseItem_fst_eq_true {o : PurchaseOutcomes} {now : Time}
    {auctionId : UInt64} {buyerId : UInt32} {listing : AuctionItem}
    (hoffer : s.OnOffer auctionId buyerId listing)
    (hcredit : CreditApplies s.db o listing buyerId) :
    (s.purchaseItem o now auctionId buyerId).1 = true ↔
      o.credit.update = .done ∧
        s.db.BalanceChanges o.debit buyerId (-listing.price.toInt32) ∧
        o.debit.update = .done ∧
        s.db.ItemUpdateSucceeds o.item (soldListing listing buyerId now) := by
  have hother := hoffer.2.2
  have hsettle := @settle_fst_eq_true s.db o listing buyerId hother
  rw [purchaseItem_of_onOffer o now hoffer]
  by_cases hsettled : (settle s.db o listing buyerId).1 = true
  · obtain ⟨-, hdone, hdebit, hdebited⟩ := hsettle.mp hsettled
    obtain ⟨info, hinfo⟩ := getUserInfo_settle_seller hother hcredit o.seller
    have hinfo' : ∃ info, ((settle s.db o listing buyerId).2.updateAuctionItem
        o.item (soldListing listing buyerId now)).2.getUserInfo o.seller
          listing.sellerId = .ok info := by
      refine ⟨info, ?_⟩
      rw [← hinfo]
      exact Database.getUserInfo_of_users
        (Database.updateAuctionItem_users _ _ _) _ _
    rw [if_pos hsettled, (handOver_eq _ o _ now auctionId listing buyerId).2,
      itemUpdateSucceeds_settle]
    constructor
    · rintro ⟨hsucceeds, -⟩
      exact ⟨hdone, hdebit, hdebited, hsucceeds⟩
    · rintro ⟨-, -, -, hsucceeds⟩
      exact ⟨hsucceeds, hinfo'⟩
  · rw [if_neg hsettled]
    constructor
    · intro h
      exact (Bool.false_ne_true h).elim
    · rintro ⟨hdone, hdebit, hdebited, -⟩
      exact (hsettled (hsettle.mpr ⟨hcredit, hdone, hdebit, hdebited⟩)).elim

/-- The store calls of a purchase whose debit raises an exception. -/
def debitRaises : PurchaseOutcomes where
  buyer := .answered
  credit := ⟨.answered, .done⟩
  debit := ⟨.answered, .raised false⟩
  item := ⟨.done, .done⟩
  seller := .answered

/-- The document of the listing has the status memory has. -/
def StatusStored (s : Server) (id : UInt64) : Prop :=
  ∀ item, s.house.auctionItems[id]? = some item →
    ∃ doc, s.db.findAuction id = some doc ∧
      AuctionStatus.ofCode doc.status = item.status

/-- The listing has the status and the index entries it had, and its document
agrees. -/
def KeptOpen (s s' : Server) (id : UInt64) : Prop :=
  s'.house.auctionItems[id]?.map AuctionItem.status =
      s.house.auctionItems[id]?.map AuctionItem.status ∧
    (∀ k, s'.house.Files k id ↔ s.house.Files k id) ∧
    s'.StatusStored id

/-- The cancellation is refused while memory and document agree, or it goes
through: the update succeeds, and the seller can be read. -/
def CancelCompletes (s : Server) (o : CancelOutcomes) (auctionId : UInt64)
    (sellerId : UInt32) : Prop :=
  (∀ listing, s.Cancellable auctionId sellerId listing →
      s.db.ItemUpdateSucceeds o.item (cancelledListing listing) ∧
        ∃ info, s.db.getUserInfo o.seller sellerId = .ok info) ∧
    ((∀ listing, ¬ s.Cancellable auctionId sellerId listing) →
      s.StatusStored auctionId)

theorem failed_cancel_kept_iff (s : Server) (o : CancelOutcomes)
    (auctionId : UInt64) (sellerId : UInt32) :
    ((s.cancelListing o auctionId sellerId).1 ≠ .ok true →
        s.KeptOpen (s.cancelListing o auctionId sellerId).2 auctionId) ↔
      s.CancelCompletes o auctionId sellerId := by
  by_cases hcancellable : ∃ listing, s.Cancellable auctionId sellerId listing
  · obtain ⟨listing, hcancellable⟩ := hcancellable
    obtain ⟨hafter, htrue⟩ := cancelListing_of_cancellable o hcancellable
    have hlookup : ∀ item, (s.db.updateAuctionItem o.item item).2.getUserInfo
        o.seller sellerId = s.db.getUserInfo o.seller sellerId := fun item =>
      Database.getUserInfo_of_users
        (Database.updateAuctionItem_users s.db o.item item) _ _
    rw [hlookup] at htrue
    have hfailed : ¬ s.KeptOpen (s.cancelListing o auctionId sellerId).2
        auctionId := by
      rintro ⟨hstatus, -, -⟩
      rw [hafter, afterClose_item, hcancellable.1] at hstatus
      have hsame : AuctionStatus.cancelled = listing.status :=
        Option.some.inj hstatus
      rw [hcancellable.2.1] at hsame
      cases hsame
    constructor
    · intro hkept
      refine ⟨?_, fun hnone => (hnone listing hcancellable).elim⟩
      intro listing' hcancellable'
      obtain rfl : listing = listing' :=
        Option.some.inj (hcancellable.1.symm.trans hcancellable'.1)
      rw [← htrue]
      by_contra hnot
      exact hfailed (hkept hnot)
    · rintro ⟨hcompletes, -⟩ hnot
      exact (hnot (htrue.mpr (hcompletes listing hcancellable))).elim
  · have hnone : ∀ listing, ¬ s.Cancellable auctionId sellerId listing :=
      fun listing h => hcancellable ⟨listing, h⟩
    rw [cancelListing_of_not_cancellable o hnone]
    constructor
    · intro hkept
      obtain ⟨-, -, hstored⟩ := hkept (by simp)
      exact ⟨fun listing h => (hnone listing h).elim, fun _ => hstored⟩
    · rintro ⟨-, hstored⟩ _
      exact ⟨rfl, fun k => Iff.rfl, hstored hnone⟩

/-! ## Sweeps -/

/-- An expiry of another listing changes neither what is due nor whether its
update succeeds. -/
theorem due_afterExpiry_of_ne {o : ItemUpdateOutcomes} {now : Time}
    {id id' : UInt64} {item item' : AuctionItem} (hne : id ≠ id') :
    (s.afterExpiry o id item).Due now id' item' ↔ s.Due now id' item' := by
  rw [Due, Due, afterExpiry, setItem_of_ne _ _ hne]

theorem itemUpdateSucceeds_afterExpiry {o o' : ItemUpdateOutcomes}
    {id : UInt64} {item new : AuctionItem} (hne : item.id ≠ new.id) :
    (s.afterExpiry o id item).db.ItemUpdateSucceeds o' new ↔
      s.db.ItemUpdateSucceeds o' new := by
  have hmodifies : (s.afterExpiry o id item).db.modifiesAuction new =
      s.db.modifiesAuction new := by
    have hfind : Collection.findOne AuctionDocument.id new.id.toInt64
        (s.db.setAuction (expiredListing item)).auctions =
          Collection.findOne AuctionDocument.id new.id.toInt64
            s.db.auctions := by
      have hkey : ∀ doc : AuctionDocument,
          doc.id = (expiredListing item).id.toInt64 →
            (itemToBson (expiredListing item)).id =
              (expiredListing item).id.toInt64 := fun _ _ => rfl
      rw [Database.setAuction, Collection.findOne_updateOne hkey, if_neg]
      rw [toInt64_inj]
      exact hne
    have hauctions : (s.afterExpiry o id item).db.auctions = s.db.auctions ∨
        (s.afterExpiry o id item).db.auctions =
          (s.db.setAuction (expiredListing item)).auctions := by
      rw [afterExpiry, Database.updateAuctionItem_auctions]
      exact WriteOutcome.store_cases _ _ _
    rw [Database.modifiesAuction, Database.modifiesAuction,
      Collection.modifiesOne, Collection.modifiesOne]
    rcases hauctions with heq | heq
    · rw [heq]
    · rw [heq, hfind]
  rw [Database.ItemUpdateSucceeds, Database.ItemUpdateSucceeds, hmodifies,
    afterExpiry, Database.updateAuctionItem_redisAvailable]

/-- The listing is due, and its update does not succeed. -/
def Failing (s : Server) (o : UInt64 → ItemUpdateOutcomes) (now : Time)
    (id : UInt64) (item : AuctionItem) : Prop :=
  s.Due now id item ∧ ¬ s.db.ItemUpdateSucceeds (o id) (expiredListing item)

/-- An expiry does not change which other listings fail. -/
theorem failing_afterExpiry_iff {o : UInt64 → ItemUpdateOutcomes} {now : Time}
    {o' : ItemUpdateOutcomes} {id id' : UInt64} {item item' : AuctionItem}
    (hwell : s.WellFiled) (hdue : s.Due now id item) (hne : id ≠ id') :
    (s.afterExpiry o' id item).Failing o now id' item' ↔
      s.Failing o now id' item' := by
  rw [Failing, Failing, due_afterExpiry_of_ne hne]
  refine and_congr_right fun hdue' => not_congr ?_
  apply itemUpdateSucceeds_afterExpiry
  have hkey : item.id = id := hwell.keyed id item hdue.1
  have hkey' : (expiredListing item').id = id' := hwell.keyed id' item' hdue'.1
  rw [hkey, hkey']
  exact hne

/-- If the update of some due listing does not succeed, the first such listing
is closed in memory all the same. -/
theorem expireItems_failed {o : UInt64 → ItemUpdateOutcomes} {now : Time}
    {ids : List UInt64} (hwell : s.WellFiled) (hnodup : ids.Nodup)
    (hfailed : ∃ id ∈ ids, ∃ item, s.Failing o now id item) :
    ∃ id ∈ ids, ∃ item, s.Failing o now id item ∧
      (expireItems o now ids s).2.ClosedAt id := by
  induction ids generalizing s with
  | nil =>
      obtain ⟨id, hid, -⟩ := hfailed
      simp at hid
  | cons id ids ih =>
      rw [List.nodup_cons] at hnodup
      by_cases hdue : ∃ item, s.Due now id item
      · obtain ⟨item, hdue⟩ := hdue
        by_cases hsucceeds :
            s.db.ItemUpdateSucceeds (o id) (expiredListing item)
        · -- This one is fine, so the failure is further on.
          have hfst := Database.updateAuctionItem_fst_eq_true.mpr hsucceeds
          have hsame : ∀ id' ∈ ids, ∀ item',
              (s.afterExpiry (o id) id item).Failing o now id' item' ↔
                s.Failing o now id' item' := by
            intro id' hid' item'
            apply failing_afterExpiry_iff hwell hdue
            rintro rfl
            exact hnodup.1 hid'
          have hwell' : (s.afterExpiry (o id) id item).WellFiled := by
            have hmove : Move ⟨False, False, False⟩ s
                (s.afterExpiry (o id) id item) := expiry_move hdue False.elim
            exact hwell.move hmove
          obtain ⟨id', hid', item', hfailed'⟩ := hfailed
          have hid' : id' ∈ ids := by
            rcases List.mem_cons.mp hid' with rfl | hid'
            · obtain rfl : item = item' :=
                Option.some.inj (hdue.1.symm.trans hfailed'.1.1)
              exact (hfailed'.2 hsucceeds).elim
            · exact hid'
          obtain ⟨id₁, hid₁, item₁, hfailed₁, hclosed⟩ :=
            ih hwell' hnodup.2
              ⟨id', hid', item', (hsame id' hid' item').mpr hfailed'⟩
          refine ⟨id₁, List.mem_cons_of_mem _ hid₁, item₁,
            (hsame id₁ hid₁ item₁).mp hfailed₁, ?_⟩
          rw [expireItems_cons_of_due ids hdue, hfst]
          exact hclosed
        · refine ⟨id, List.mem_cons_self, item, ⟨hdue, hsucceeds⟩, ?_⟩
          have hclosed : (s.afterExpiry (o id) id item).ClosedAt id :=
            closedAt_afterExpiry (o id)
          rw [expireItems_cons_of_due ids hdue]
          split
          · exact hclosed
          · exact hclosed.expireItems o now ids
      · have hnot : ∀ item, ¬ s.Due now id item := fun item h => hdue ⟨item, h⟩
        rw [expireItems_cons_of_not_due ids hnot]
        obtain ⟨id', hid', item', hfailed'⟩ := hfailed
        have hid' : id' ∈ ids := by
          rcases List.mem_cons.mp hid' with rfl | hid'
          · exact (hnot item' hfailed'.1).elim
          · exact hid'
        obtain ⟨id₁, hid₁, hrest⟩ :=
          ih hwell hnodup.2 ⟨id', hid', item', hfailed'⟩
        exact ⟨id₁, List.mem_cons_of_mem _ hid₁, hrest⟩

/-- The update of every due listing succeeds. -/
def SweepCompletes (s : Server) (o : SweepOutcomes) (now : Time) : Prop :=
  ∀ id item, s.Due now id item →
    s.db.ItemUpdateSucceeds (o.item id) (expiredListing item)

/-- A sweep keeps the listings it cannot persist exactly when there are
none. -/
theorem failed_sweep_kept_iff (hwell : s.WellFiled) (o : SweepOutcomes)
    (now : Time) {order : List UInt64}
    (horder : order.Perm s.house.auctionItems.keys) :
    (∀ id item, s.Due now id item →
        ¬ s.db.ItemUpdateSucceeds (o.item id) (expiredListing item) →
          s.KeptOpen (s.processExpiredItems o now order).2 id) ↔
      s.SweepCompletes o now := by
  constructor
  · intro hkept
    by_contra hfails
    simp only [SweepCompletes, not_forall] at hfails
    obtain ⟨id, item, hdue, hfailed⟩ := hfails
    have hmem : id ∈ order := by
      rw [horder.mem_iff, Std.ExtTreeMap.mem_keys,
        Std.ExtTreeMap.mem_iff_isSome_getElem?, hdue.1]
      rfl
    have hnodup : order.Nodup :=
      horder.nodup_iff.mpr Std.ExtTreeMap.nodup_keys
    obtain ⟨id₁, -, item₁, ⟨hdue₁, hfailed₁⟩, hclosed⟩ :=
      expireItems_failed hwell hnodup ⟨id, hmem, item, hdue, hfailed⟩
    have hclosed' : (s.processExpiredItems o now order).2.ClosedAt id₁ :=
      (@processExpiredItems_moves ⟨False, False, False⟩ s o now order
        False.elim).2 id₁ hclosed
    obtain ⟨hstatus, -, -⟩ := hkept id₁ item₁ hdue₁ hfailed₁
    rw [hdue₁.1, Option.map_some, hdue₁.active] at hstatus
    obtain ⟨item₂, hitem₂, hactive⟩ := Option.map_eq_some_iff.mp hstatus
    exact hclosed' item₂ hitem₂ hactive
  · intro hcompletes id item hdue hfailed
    exact (hfailed (hcompletes id item hdue)).elim

/-- In every reachable state, a failed cancellation and the failed expiries of
a sweep leave their listings open exactly under the two conditions above. -/
theorem failed_close_kept_iff [StdSort] (hreach : s.Reachable)
    (o : CancelOutcomes) (auctionId : UInt64) (sellerId : UInt32)
    (sweep : SweepOutcomes) (now : Time) {order : List UInt64}
    (horder : order.Perm s.house.auctionItems.keys) :
    (((s.cancelListing o auctionId sellerId).1 ≠ .ok true →
          s.KeptOpen (s.cancelListing o auctionId sellerId).2 auctionId) ↔
        s.CancelCompletes o auctionId sellerId) ∧
      ((∀ id item, s.Due now id item →
          ¬ s.db.ItemUpdateSucceeds (sweep.item id) (expiredListing item) →
            s.KeptOpen (s.processExpiredItems sweep now order).2 id) ↔
        s.SweepCompletes sweep now) :=
  ⟨failed_cancel_kept_iff s o auctionId sellerId,
    failed_sweep_kept_iff hreach.wellFiled sweep now horder⟩

/-- The store calls of a cancellation, and of a sweep, whose updates raise. -/
def updateRaises : ItemUpdateOutcomes :=
  ⟨.raised false, .done⟩

/-- One listing, a cancellation that goes through, and a sweep at a time when
nothing is due. -/
theorem failed_close_kept_market :
    ∃ s, @Reachable StdSort.insertion s ∧
      (((s.cancelListing ⟨⟨.done, .done⟩, .answered⟩ 1 7).1 ≠ .ok true →
          s.KeptOpen (s.cancelListing ⟨⟨.done, .done⟩, .answered⟩ 1 7).2 1) ↔
        s.CancelCompletes ⟨⟨.done, .done⟩, .answered⟩ 1 7) ∧
      ((∀ id item, s.Due 2000 id item →
          ¬ s.db.ItemUpdateSucceeds updateRaises (expiredListing item) →
            s.KeptOpen (s.processExpiredItems
              ⟨fun _ => updateRaises, fun _ => .answered⟩ 2000 [1]).2 id) ↔
        s.SweepCompletes ⟨fun _ => updateRaises, fun _ => .answered⟩ 2000) := by
  obtain ⟨es, s, hserve, hkeys⟩ :=
    @exists_serve StdSort.insertion market [] none (fun _ => .answered)
      [offer "iron sword"]
      (fun _ s => decide (s.house.auctionItems.keys = [1])) (by decide)
  have hreach : @Reachable StdSort.insertion s := ⟨_, _, _, _, _, _, hserve⟩
  have horder : [1].Perm s.house.auctionItems.keys := by
    rw [of_decide_eq_true hkeys]
  exact ⟨s, hreach, @failed_close_kept_iff s StdSort.insertion hreach
    ⟨⟨.done, .done⟩, .answered⟩ 1 7
    ⟨fun _ => updateRaises, fun _ => .answered⟩ 2000 [1] horder⟩

/-- A cancellation whose update raises closes the listing in memory only. -/
theorem failed_close_not_kept :
    ∃ s, @Reachable StdSort.insertion s ∧
      (s.cancelListing ⟨updateRaises, .answered⟩ 1 7).1 = .ok false ∧
      ¬ s.KeptOpen (s.cancelListing ⟨updateRaises, .answered⟩ 1 7).2 1 := by
  obtain ⟨es, s, hserve, hs⟩ :=
    @exists_serve StdSort.insertion market [] none (fun _ => .answered)
      [offer "iron sword"]
      (fun _ s => decide ((s.cancelListing ⟨updateRaises, .answered⟩ 1 7).1 =
          .ok false ∧
        (s.cancelListing ⟨updateRaises, .answered⟩ 1 7).2.house.auctionItems[
            (1 : UInt64)]?.map AuctionItem.status ≠
          s.house.auctionItems[(1 : UInt64)]?.map AuctionItem.status))
      (by decide)
  obtain ⟨hfalse, hstatus⟩ := of_decide_eq_true hs
  exact ⟨s, ⟨_, _, _, _, _, _, hserve⟩, hfalse, fun h => hstatus h.1⟩

end Server
end AuctionServer
