import AuctionServer.House.Steps
import AuctionServer.House.CacheBlind

/-!
# The steps of a call make up the call

What is left of a call at each of its steps, as a function of the outcomes
still to come.  A step that goes on leaves the rest of what was left before
it, so a call made step by step is the whole call with the outcomes its steps
met.
-/

namespace AuctionServer

open Std

namespace Database

variable {db db' : Database}

/-- What is left of `updateUserBalance`. -/
def finishBalance (db : Database) :
    BalanceProgress → BalanceOutcomes → Bool × Database
  | .finding c, o => db.updateUserBalance o c.userId c.amount
  | .updating c _ newBalance, o =>
      (o.update.reports (db.modifiesBalance c.userId newBalance),
        o.update.store db (db.setBalance c.userId newBalance))

/-- The `find_one` step either ends the call as the whole call ends, or goes on
to the write of the whole call. -/
theorem updateUserBalanceStep_finding_cases (db : Database) (c : BalanceCall)
    (e : BalanceOutcomes) :
    (db.updateUserBalanceStep (.finding c) e = (db, .inr (c, false)) ∧
        db.updateUserBalance e c.userId c.amount = (false, db)) ∨
      ∃ current new,
        db.updateUserBalanceStep (.finding c) e =
            (db, .inl (.updating c current new)) ∧
          ∀ o, db.updateUserBalance ⟨.answered, o.update⟩ c.userId c.amount =
            db.finishBalance (.updating c current new) o := by
  cases hfind : e.find with
  | raised =>
      exact .inl (by simp [updateUserBalanceStep, updateUserBalance, hfind])
  | answered =>
      cases hdoc : db.findUser c.userId with
      | none =>
          exact .inl (by
            simp [updateUserBalanceStep, updateUserBalance, hfind, hdoc])
      | some doc =>
          cases hbalance : doc.balance with
          | none =>
              exact .inl (by
                simp [updateUserBalanceStep, updateUserBalance, hfind, hdoc,
                  hbalance])
          | some balance =>
              by_cases hneg : balance + c.amount < 0
              · exact .inl (by
                  simp [updateUserBalanceStep, updateUserBalance, hfind, hdoc,
                    hbalance, hneg])
              · refine .inr ⟨balance, balance + c.amount, ?_, ?_⟩
                · simp [updateUserBalanceStep, hfind, hdoc, hbalance, hneg]
                · intro o
                  simp [finishBalance, updateUserBalance, hdoc, hbalance, hneg,
                    modifiesBalance_eq hdoc hbalance]

theorem finishBalance_of_goes {m m' : BalanceProgress} {e : BalanceOutcomes}
    (h : db.updateUserBalanceStep m e = (db', .inl m')) (o : BalanceOutcomes) :
    ∃ o', db.finishBalance m o' = db'.finishBalance m' o := by
  cases m with
  | updating c current new => cases congrArg Prod.snd h
  | finding c =>
      rcases db.updateUserBalanceStep_finding_cases c e with
        ⟨hstep, -⟩ | ⟨current, new, hstep, hrest⟩
      · cases hstep.symm.trans h
      · cases hstep.symm.trans h
        exact ⟨⟨.answered, o.update⟩, hrest o⟩

theorem finishBalance_of_ends {m : BalanceProgress} {e : BalanceOutcomes}
    {c : BalanceCall} {result : Bool}
    (h : db.updateUserBalanceStep m e = (db', .inr (c, result))) :
    db.finishBalance m e = (result, db') := by
  cases m with
  | updating c current new =>
      cases h
      rfl
  | finding c =>
      rcases db.updateUserBalanceStep_finding_cases c e with
        ⟨hstep, hwhole⟩ | ⟨current, new, hstep, -⟩
      · cases hstep.symm.trans h
        exact hwhole
      · cases hstep.symm.trans h

/-- What is left of `updateAuctionItem`. -/
def finishItem (db : Database) :
    ItemWrite → ItemUpdateOutcomes → Except StoreException Bool × Database
  | .updating item, o => db.updateAuctionItem o item
  | .deleting item modified, o =>
      match db.redisDel o.del (getItemCacheKey item.id) with
      | (.error e, cleaned) => (.error e, cleaned)
      | (.ok (), cleaned) => (.ok modified, cleaned)

/-- An `update_one` that is answered leads on to the cache when there is one,
in the step as in the whole call. -/
theorem updateAuctionItem_of_answered {w : WriteOutcome}
    (hw : ∀ applied, w ≠ .raised applied) (item : AuctionItem) :
    let written := w.store db (db.setAuction item)
    let modified := w.reports (db.modifiesAuction item)
    db.updateAuctionItemStep (.updating item) w =
        (written, if written.redisAvailable then .inl (.deleting item modified)
          else .inr (.ok modified)) ∧
      ∀ o : ItemUpdateOutcomes, db.updateAuctionItem ⟨w, o.del⟩ item =
        if written.redisAvailable then
          written.finishItem (.deleting item modified) o
        else (.ok modified, written) := by
  intro written modified
  have hstep : db.updateAuctionItemStep (.updating item) w =
      if written.redisAvailable then (written, .inl (.deleting item modified))
      else (written, .inr (.ok modified)) := by
    cases w with
    | raised applied => exact (hw applied rfl).elim
    | done => rfl
    | refused applied => rfl
  constructor
  · rw [hstep]
    split <;> rfl
  · intro o
    cases w with
    | raised applied => exact (hw applied rfl).elim
    | done => rfl
    | refused applied => rfl

/-- The `update_one` step either ends the call as the whole call ends, or goes
on to the deletion of the whole call. -/
theorem updateAuctionItemStep_updating_cases (db : Database) (item : AuctionItem)
    (w : WriteOutcome) :
    (∃ result db', db.updateAuctionItemStep (.updating item) w =
          (db', .inr result) ∧
        ∀ o : ItemUpdateOutcomes,
          db.updateAuctionItem ⟨w, o.del⟩ item = (result, db')) ∨
      ∃ modified db', db.updateAuctionItemStep (.updating item) w =
          (db', .inl (.deleting item modified)) ∧
        ∀ o : ItemUpdateOutcomes, db.updateAuctionItem ⟨w, o.del⟩ item =
          db'.finishItem (.deleting item modified) o := by
  by_cases hraised : ∃ applied, w = .raised applied
  · obtain ⟨applied, rfl⟩ := hraised
    exact .inl ⟨.ok false, _, rfl, fun _ => rfl⟩
  · obtain ⟨hstep, hwhole⟩ := @updateAuctionItem_of_answered db w
      (fun applied heq => hraised ⟨applied, heq⟩) item
    by_cases hredis : (w.store db (db.setAuction item)).redisAvailable = true
    · rw [if_pos hredis] at hstep
      exact .inr ⟨_, _, hstep, fun o => (hwhole o).trans (if_pos hredis)⟩
    · rw [if_neg hredis] at hstep
      exact .inl ⟨_, _, hstep, fun o => (hwhole o).trans (if_neg hredis)⟩

theorem finishItem_of_goes {m m' : ItemWrite} {w : WriteOutcome}
    (h : db.updateAuctionItemStep m w = (db', .inl m')) (o : ItemUpdateOutcomes) :
    ∃ o', db.finishItem m o' = db'.finishItem m' o := by
  cases m with
  | deleting item modified =>
      simp only [updateAuctionItemStep] at h
      split at h <;> cases congrArg Prod.snd h
  | updating item =>
      rcases db.updateAuctionItemStep_updating_cases item w with
        ⟨result, cleaned, hstep, -⟩ | ⟨modified, written, hstep, hwhole⟩
      · cases hstep.symm.trans h
      · cases hstep.symm.trans h
        exact ⟨⟨w, o.del⟩, hwhole o⟩

theorem finishItem_of_ends {m : ItemWrite} {w : WriteOutcome}
    {result : Except StoreException Bool}
    (h : db.updateAuctionItemStep m w = (db', .inr result)) :
    db.finishItem m ⟨w, w⟩ = (result, db') := by
  cases m with
  | deleting item modified =>
      rcases hdel : db.redisDel w (getItemCacheKey item.id) with ⟨e | u, cleaned⟩
      · simp only [updateAuctionItemStep, hdel] at h
        cases h
        simp only [finishItem, hdel]
      · simp only [updateAuctionItemStep, hdel] at h
        cases h
        simp only [finishItem, hdel]
  | updating item =>
      rcases db.updateAuctionItemStep_updating_cases item w with
        ⟨r, cleaned, hstep, hwhole⟩ | ⟨modified, written, hstep, -⟩
      · cases hstep.symm.trans h
        exact hwhole ⟨w, w⟩
      · cases hstep.symm.trans h

end Database

namespace Server

/-! ## What is left of a purchase and of a cancellation -/

/-- What is left of `purchaseItem` after the sold listing is written. -/
def afterWrite (s : Server) (written : Except StoreException Bool × Database)
    (seller : ReadOutcome) (sold : AuctionItem) : Bool × Server :=
  match written with
  | (.ok true, db) => finishSale { s with db } seller sold
  | (_, db) => (false, { s with db })

/-- What is left of `purchaseItem` after the buyer is charged. -/
def afterDebit (s : Server) (charged : Bool × Database) (o : PurchaseOutcomes)
    (now : Time) (auctionId : UInt64) (listing : AuctionItem)
    (buyerId : UInt32) : Bool × Server :=
  match charged with
  | (false, db) => (false, { s with db })
  | (true, db) =>
      let sold := soldListing listing buyerId now
      afterWrite { house := s.house.setItem auctionId sold, db }
        (db.updateAuctionItem o.item sold) o.seller sold

/-- What is left of `purchaseItem` after the seller is paid. -/
def afterCredit (s : Server) (paid : Bool × Database) (o : PurchaseOutcomes)
    (now : Time) (auctionId : UInt64) (listing : AuctionItem)
    (buyerId : UInt32) : Bool × Server :=
  match paid with
  | (false, db) => (false, { s with db })
  | (true, db) =>
      afterDebit s (db.updateUserBalance o.debit buyerId (-listing.price.toInt32))
        o now auctionId listing buyerId

theorem handOver_eq_afterWrite (s : Server) (o : PurchaseOutcomes)
    (transaction : Transaction) (now : Time) (auctionId : UInt64)
    (listing : AuctionItem) (buyerId : UInt32) :
    let sold := soldListing listing buyerId now
    s.handOver o transaction now auctionId listing buyerId =
      afterWrite { s with house := s.house.setItem auctionId sold }
        (s.db.updateAuctionItem o.item sold) o.seller sold := by
  intro sold
  rcases hwritten : s.db.updateAuctionItem o.item sold with ⟨e | b, db⟩
  · simp [handOver, afterWrite, sold, hwritten, abandon, Transaction.rollback]
  · cases b with
    | false =>
        simp [handOver, afterWrite, sold, hwritten, abandon, Transaction.rollback]
    | true =>
        rcases hremoved : (s.house.setItem auctionId sold).removeFromIndices db
          o.seller sold with ⟨e | u, house⟩
        · simp [handOver, afterWrite, finishSale, sold, hwritten, hremoved,
            abandon, Transaction.rollback]
        · simp [handOver, afterWrite, finishSale, sold, hwritten, hremoved]

/-- A purchase that gets as far as the balances. -/
theorem purchaseItem_eq_afterCredit {s : Server} {auctionId : UInt64}
    {buyerId : UInt32} {listing : AuctionItem} {buyer : UserInfo}
    (h : s.OnOffer auctionId buyerId listing) {o : PurchaseOutcomes} (now : Time)
    (hbuyer : s.db.getUserInfo o.buyer buyerId = .ok (some buyer))
    (hpays : ¬ buyer.balance < listing.price) :
    s.purchaseItem o now auctionId buyerId =
      s.afterCredit (s.db.updateUserBalance o.credit listing.sellerId
        listing.price.toInt32) o now auctionId listing buyerId := by
  rw [purchaseItem_of_onOffer o now h]
  rcases hcredit : s.db.updateUserBalance o.credit listing.sellerId
    listing.price.toInt32 with ⟨_ | _, db⟩
  · simp [settle, hbuyer, hpays, hcredit, afterCredit]
  · rcases hdebit : db.updateUserBalance o.debit buyerId
      (-listing.price.toInt32) with ⟨_ | _, db'⟩
    · simp [settle, hbuyer, hpays, hcredit, hdebit, afterCredit, afterDebit]
    · simp [settle, hbuyer, hpays, hcredit, hdebit, afterCredit, afterDebit,
        handOver_eq_afterWrite]

/-- What is left of `cancelListing` after the cancelled listing is written. -/
def afterCancel (s : Server) (written : Except StoreException Bool × Database)
    (seller : ReadOutcome) (cancelled : AuctionItem) :
    Except StoreException Bool × Server :=
  match written with
  | (.ok true, db) => finishCancel { s with db } seller cancelled
  | (result, db) => (result, { s with db })

/-- A cancellation that gets as far as the update. -/
theorem cancelListing_eq_afterCancel {s : Server} {auctionId : UInt64}
    {sellerId : UInt32} {listing : AuctionItem}
    (h : s.Cancellable auctionId sellerId listing) (o : CancelOutcomes) :
    s.cancelListing o auctionId sellerId =
      afterCancel
        { s with house := s.house.setItem auctionId (cancelledListing listing) }
        (s.db.updateAuctionItem o.item (cancelledListing listing)) o.seller
        (cancelledListing listing) := by
  obtain ⟨hitem, hactive, rfl⟩ := h
  let cancelled := cancelledListing listing
  rcases hwritten : s.db.updateAuctionItem o.item cancelled with ⟨e | b, db⟩
  · simp only [cancelled, cancelledListing] at hwritten
    simp [cancelListing, afterCancel, cancelledListing, hitem, hactive, hwritten]
  · simp only [cancelled, cancelledListing] at hwritten
    cases b with
    | false =>
        simp [cancelListing, afterCancel, cancelledListing, hitem, hactive,
          hwritten]
    | true =>
        rcases hremoved : (s.house.setItem auctionId cancelled).removeFromIndices
          db o.seller cancelled with ⟨e | u, house⟩
        · simp only [cancelled, cancelledListing] at hremoved
          simp [cancelListing, afterCancel, finishCancel, cancelledListing, hitem,
            hactive, hwritten, hremoved]
        · simp only [cancelled, cancelledListing] at hremoved
          simp [cancelListing, afterCancel, finishCancel, cancelledListing, hitem,
            hactive, hwritten, hremoved]

/-! ## What is left of a search -/

/-- What is left of `searchItems` in its filter loop. -/
def finishMatching [StdSort] (s : Server) (sellers : UInt64 → ReadOutcome)
    (setex : WriteOutcome) (criteria : SearchCriteria) (ids : List UInt64)
    (results : List AuctionItem) :
    Except StoreException (List AuctionItem) × Server :=
  match AuctionHouse.filterMatches s.db sellers criteria ids s.house with
  | (.error e, house) => (.error e, { s with house })
  | (.ok more, house) =>
      Prod.map .ok id
        (showResults { s with house } setex criteria (results ++ more))

/-! ## What is left of a sweep -/

/-- What is left of `processExpiredItems` in its second loop. -/
def finishClearing (s : Server) (seller : UInt64 → ReadOutcome)
    (expiredIds : List UInt64) : Except StoreException Unit × Server :=
  Prod.map id (fun house => { s with house })
    (removeExpired seller s.db expiredIds s.house)

/-- What is left of `processExpiredItems` in its first loop. -/
def finishExpiring (s : Server) (o : SweepOutcomes) (now : Time)
    (ids expiredIds : List UInt64) : Except StoreException Unit × Server :=
  match expireItems o.item now ids s with
  | (.error e, s) => (.error e, s)
  | (.ok more, s) => s.finishClearing o.seller (expiredIds ++ more)

/-- What is left of `processExpiredItems` after an expired listing is
written. -/
def finishStoring (s : Server) (written : Except StoreException Bool × Database)
    (o : SweepOutcomes) (now : Time) (id : UInt64) (ids expiredIds : List UInt64) :
    Except StoreException Unit × Server :=
  match written with
  | (.error e, db) => (.error e, { s with db })
  | (.ok false, db) => finishExpiring { s with db } o now ids expiredIds
  | (.ok true, db) => finishExpiring { s with db } o now ids (expiredIds ++ [id])

theorem finishExpiring_nil (s : Server) (o : SweepOutcomes) (now : Time)
    (expiredIds : List UInt64) :
    s.finishExpiring o now [] expiredIds =
      s.finishClearing o.seller expiredIds := by
  simp [finishExpiring, expireItems]

theorem finishExpiring_of_none {s : Server} {id : UInt64}
    (hitem : s.house.auctionItems[id]? = none) (o : SweepOutcomes) (now : Time)
    (ids expiredIds : List UInt64) :
    s.finishExpiring o now (id :: ids) expiredIds =
      s.finishExpiring o now ids expiredIds := by
  simp [finishExpiring, expireItems, hitem]

theorem finishExpiring_of_not_expired {s : Server} {id : UInt64}
    {item : AuctionItem} {now : Time}
    (hitem : s.house.auctionItems[id]? = some item)
    (hnot : ¬ isExpired now item = true) (o : SweepOutcomes)
    (ids expiredIds : List UInt64) :
    s.finishExpiring o now (id :: ids) expiredIds =
      s.finishExpiring o now ids expiredIds := by
  simp [finishExpiring, expireItems, hitem, hnot]

theorem finishExpiring_of_expired {s : Server} {id : UInt64}
    {item : AuctionItem} {now : Time}
    (hitem : s.house.auctionItems[id]? = some item)
    (hexpired : isExpired now item = true) (o : SweepOutcomes)
    (ids expiredIds : List UInt64) :
    let expired := { item with status := .expired }
    s.finishExpiring o now (id :: ids) expiredIds =
      finishStoring { s with house := s.house.setItem id expired }
        (s.db.updateAuctionItem (o.item id) expired) o now id ids expiredIds := by
  intro expired
  rcases hwritten : s.db.updateAuctionItem (o.item id) expired with ⟨e | b, db⟩
  · simp only [expired] at hwritten
    simp [finishExpiring, finishStoring, expireItems, hitem, hexpired, expired,
      hwritten]
  · simp only [expired] at hwritten
    cases b with
    | false =>
        simp [finishExpiring, finishStoring, expireItems, hitem, hexpired,
          expired, hwritten]
    | true =>
        rcases hrest : expireItems o.item now ids
          { house := s.house.setItem id expired, db } with ⟨e | more, s'⟩
        · simp only [expired] at hrest
          simp [finishExpiring, finishStoring, expireItems, hitem, hexpired,
            expired, hwritten, hrest]
        · simp only [expired] at hrest
          simp [finishExpiring, finishStoring, expireItems, hitem, hexpired,
            expired, hwritten, hrest]

theorem processExpiredItems_eq (s : Server) (o : SweepOutcomes) (now : Time)
    (order : List UInt64) :
    s.processExpiredItems o now order = s.finishExpiring o now order [] := by
  rcases hexpire : expireItems o.item now order s with ⟨e | ids, s'⟩
  · simp [processExpiredItems, finishExpiring, hexpire]
  · rcases hremove : removeExpired o.seller s'.db ids s'.house with ⟨e | u, house⟩
    · simp [processExpiredItems, finishExpiring, finishClearing, hexpire, hremove]
    · simp [processExpiredItems, finishExpiring, finishClearing, hexpire, hremove]

/-! ## The outcomes a sweep and a search look at -/

theorem expireItems_congr {o o' : UInt64 → ItemUpdateOutcomes} {now : Time}
    {ids : List UInt64} (h : ∀ id ∈ ids, o id = o' id) (s : Server) :
    expireItems o now ids s = expireItems o' now ids s := by
  induction ids generalizing s with
  | nil => rfl
  | cons id ids ih =>
      have hrest := ih fun i hi => h i (List.mem_cons_of_mem _ hi)
      simp only [expireItems, h id List.mem_cons_self, hrest]

theorem removeExpired_congr {seller seller' : UInt64 → ReadOutcome}
    {ids : List UInt64} (h : ∀ id ∈ ids, seller id = seller' id) (db : Database)
    (house : AuctionHouse) :
    removeExpired seller db ids house = removeExpired seller' db ids house := by
  induction ids generalizing house with
  | nil => rfl
  | cons id ids ih =>
      have hrest := ih fun i hi => h i (List.mem_cons_of_mem _ hi)
      simp only [removeExpired, h id List.mem_cons_self, hrest]

theorem filterMatches_congr {sellers sellers' : UInt64 → ReadOutcome}
    {ids : List UInt64} (h : ∀ id ∈ ids, sellers id = sellers' id)
    (db : Database) (criteria : SearchCriteria) (house : AuctionHouse) :
    AuctionHouse.filterMatches db sellers criteria ids house =
      AuctionHouse.filterMatches db sellers' criteria ids house := by
  induction ids generalizing house with
  | nil => rfl
  | cons id ids ih =>
      have hrest := ih fun i hi => h i (List.mem_cons_of_mem _ hi)
      simp only [AuctionHouse.filterMatches, h id List.mem_cons_self, hrest]

theorem nodup_toList (ids : IdSet) : ids.toList.Nodup :=
  ids.distinct_toList.imp fun hne heq => hne (compare_eq_iff_eq.mpr heq)

theorem nodup_of_isPerm_keys {s : Server} {order : List UInt64}
    (h : order.isPerm s.house.auctionItems.keys = true) : order.Nodup := by
  rw [List.isPerm_iff] at h
  refine h.nodup_iff.mpr ?_
  exact s.house.auctionItems.distinct_keys.imp fun hne heq =>
    hne (compare_eq_iff_eq.mpr heq)

/-! ## Calls that come to their end -/

section Ends

variable [StdSort]

/-- With some outcomes still to come the call ends with the reply in the
state. -/
def Ends (s : Server) : CallProgress → Reply → Server → Prop
  | .saving sellerId item price, r, t =>
      ∃ o now, Prod.map .registered id (s.registerItem o now sellerId item price) =
        (r, t)
  | .filing item listing, r, t =>
      ∃ seller, Prod.map .registered id (s.fileListing seller item listing) = (r, t)
  | .looking criteria, r, t =>
      ∃ o, (s.searchItems o criteria).map (Prod.map .found id) = some (r, t)
  | .matching criteria ids results, r, t =>
      ids.Nodup → ∃ sellers setex, Prod.map .found id
        (s.finishMatching sellers setex criteria ids results) = (r, t)
  | .checking auctionId buyerId, r, t =>
      ∃ o now, Prod.map .purchased id (s.purchaseItem o now auctionId buyerId) =
        (r, t)
  | .crediting auctionId buyerId listing m, r, t =>
      ∃ (o : PurchaseOutcomes) (now : Time), Prod.map .purchased id
        (s.afterCredit (s.db.finishBalance m o.credit) o now auctionId listing
          buyerId) = (r, t)
  | .debiting auctionId buyerId listing m, r, t =>
      ∃ (o : PurchaseOutcomes) (now : Time), Prod.map .purchased id
        (s.afterDebit (s.db.finishBalance m o.debit) o now auctionId listing
          buyerId) = (r, t)
  | .selling sold m, r, t =>
      ∃ o seller, Prod.map .purchased id
        (s.afterWrite (s.db.finishItem m o) seller sold) = (r, t)
  | .handingOver sold, r, t =>
      ∃ seller, Prod.map .purchased id (s.finishSale seller sold) = (r, t)
  | .withdrawing auctionId sellerId, r, t =>
      ∃ o, Prod.map .cancelled id (s.cancelListing o auctionId sellerId) = (r, t)
  | .cancelling cancelled m, r, t =>
      ∃ o seller, Prod.map .cancelled id
        (s.afterCancel (s.db.finishItem m o) seller cancelled) = (r, t)
  | .removing cancelled, r, t =>
      ∃ seller, Prod.map .cancelled id (s.finishCancel seller cancelled) = (r, t)
  | .sweeping, r, t =>
      ∃ o now order, order.isPerm s.house.auctionItems.keys = true ∧
        Prod.map .swept id (s.processExpiredItems o now order) = (r, t)
  | .expiring now ids expiredIds, r, t =>
      (expiredIds ++ ids).Nodup → ∃ o,
        Prod.map .swept id (s.finishExpiring o now ids expiredIds) = (r, t)
  | .storing now id' ids expiredIds m, r, t =>
      (expiredIds ++ id' :: ids).Nodup → ∃ o o',
        Prod.map .swept id
          (s.finishStoring (s.db.finishItem m o) o' now id' ids expiredIds) = (r, t)
  | .clearing expiredIds, r, t =>
      expiredIds.Nodup → ∃ seller,
        Prod.map .swept id (s.finishClearing seller expiredIds) = (r, t)

/-- After a step that goes on the call ends so; a step that ends the call ends
it so. -/
def Continues (s : Server) (x : CallProgress ⊕ Reply) (r : Reply) (t : Server) :
    Prop :=
  match x with
  | .inl m => Ends s m r t
  | .inr r' => (r', s) = (r, t)

variable {s s' t : Server} {x : CallProgress ⊕ Reply} {r : Reply}

/-! ### Registration -/

theorem ends_saving {sellerId : UInt32} {item : Item} {price : UInt32}
    {e : Encounter}
    (h : s.advance (.saving sellerId item price) e = some (s', x))
    (hrest : Continues s' x r t) : Ends s (.saving sellerId item price) r t := by
  unfold advance at h
  dsimp only at h
  rcases hsaved : s.db.saveAuctionItem e.write
    (newListing s.house.nextAuctionId e.now sellerId item price) with ⟨_ | _, db⟩
  · simp only [hsaved] at h
    cases h
    refine ⟨⟨e.write, e.read⟩, e.now, ?_⟩
    rw [← hrest]
    simp [registerItem, hsaved]
  · simp only [hsaved] at h
    cases h
    obtain ⟨seller, hfile⟩ := hrest
    refine ⟨⟨e.write, seller⟩, e.now, ?_⟩
    rw [← hfile]
    simp only [registerItem, hsaved, fileListing]
    rfl

theorem ends_filing {item : Item} {listing : AuctionItem} {e : Encounter}
    (h : s.advance (.filing item listing) e = some (s', x))
    (hrest : Continues s' x r t) : Ends s (.filing item listing) r t := by
  cases h
  exact ⟨e.read, hrest⟩

/-! ### Searches -/

/-- A search that misses the cache goes through its candidates. -/
theorem searchItems_eq_finishMatching {o : SearchOutcomes}
    {criteria : SearchCriteria} {ids : IdSet}
    (hcached : s.cachedResults o criteria = none)
    (hids : s.house.candidates criteria = some ids) :
    s.searchItems o criteria =
      some (s.finishMatching o.sellers o.setex criteria ids.toList []) := by
  rcases hfiltered : AuctionHouse.filterMatches s.db o.sellers criteria ids.toList
    s.house with ⟨e | results, house⟩
  · simp [searchItems, searchUncached, selectItems, finishMatching, hcached, hids,
      hfiltered]
  · by_cases hpopular : criteria.isPopularSearch = true
    · simp [searchItems, searchUncached, selectItems, finishMatching, showResults,
        hcached, hids, hfiltered, hpopular]
    · simp [searchItems, searchUncached, selectItems, finishMatching, showResults,
        hcached, hids, hfiltered, hpopular]

theorem ends_looking {criteria : SearchCriteria} {e : Encounter}
    (h : s.advance (.looking criteria) e = some (s', x))
    (hrest : Continues s' x r t) : Ends s (.looking criteria) r t := by
  have hcached : ∀ o : SearchOutcomes, o.get = e.read → o.unset = e.unset →
      (if criteria.isPopularSearch then
        s.db.getCachedSearch e.read e.unset criteria.hash else none) =
          s.cachedResults o criteria := by
    rintro o hget hunset
    rw [cachedResults, hget, hunset]
  unfold advance at h
  dsimp only at h
  split at h
  · next results hfound =>
      cases h
      refine ⟨⟨e.read, e.unset, fun _ => .answered, .done⟩, ?_⟩
      rw [hcached ⟨e.read, e.unset, fun _ => .answered, .done⟩ rfl rfl] at hfound
      rw [← hrest]
      simp [searchItems, hfound]
  · next hmiss =>
      obtain ⟨ids, hids, heq⟩ := Option.map_eq_some_iff.mp h
      cases heq
      obtain ⟨sellers, setex, hfinish⟩ := hrest (nodup_toList ids)
      rw [hcached ⟨e.read, e.unset, sellers, setex⟩ rfl rfl] at hmiss
      refine ⟨⟨e.read, e.unset, sellers, setex⟩, ?_⟩
      rw [searchItems_eq_finishMatching hmiss hids, Option.map_some, hfinish]

theorem ends_matching {criteria : SearchCriteria} {ids : List UInt64}
    {results : List AuctionItem} {e : Encounter}
    (h : s.advance (.matching criteria ids results) e = some (s', x))
    (hrest : Continues s' x r t) : Ends s (.matching criteria ids results) r t := by
  cases ids with
  | nil =>
      cases h
      intro _
      refine ⟨fun _ => .answered, e.write, ?_⟩
      simp only [finishMatching, AuctionHouse.filterMatches, List.append_nil]
      exact hrest
  | cons id ids =>
      rintro hnodup
      obtain ⟨hnew, hnodup⟩ := List.nodup_cons.mp hnodup
      unfold advance at h
      dsimp only at h
      rcases hsubscript : s.house.subscript id with ⟨item, house⟩
      simp only [hsubscript] at h
      cases hmatched : matchesCriteria s.db e.read item criteria with
      | error ex =>
          simp only [hmatched] at h
          cases h
          refine ⟨fun _ => e.read, .done, ?_⟩
          rw [← hrest]
          simp [finishMatching, AuctionHouse.filterMatches, hsubscript, hmatched]
      | ok matched =>
          simp only [hmatched] at h
          cases h
          obtain ⟨sellers, setex, hfinish⟩ := hrest hnodup
          refine ⟨Function.update sellers id e.read, setex, ?_⟩
          have hothers : AuctionHouse.filterMatches s.db
              (Function.update sellers id e.read) criteria ids house =
                AuctionHouse.filterMatches s.db sellers criteria ids house := by
            refine filterMatches_congr ?_ s.db criteria house
            intro i hi
            have hne : i ≠ id := by
              rintro rfl
              exact hnew hi
            exact Function.update_of_ne hne _ _
          rw [← hfinish]
          simp only [finishMatching, AuctionHouse.filterMatches, hsubscript,
            Function.update_self, hmatched, hothers]
          rcases AuctionHouse.filterMatches s.db sellers criteria ids house with
            ⟨ex | more, house'⟩
          · rfl
          · cases matched <;> simp

/-! ### Purchases -/

theorem ends_checking {auctionId : UInt64} {buyerId : UInt32} {e : Encounter}
    (h : s.advance (.checking auctionId buyerId) e = some (s', x))
    (hrest : Continues s' x r t) : Ends s (.checking auctionId buyerId) r t := by
  have hrefused : ∀ o : PurchaseOutcomes,
      s.purchaseItem o e.now auctionId buyerId = (false, s) →
        (s', x) = (s, .inr (.purchased false)) →
          Ends s (.checking auctionId buyerId) r t := by
    intro o hwhole hstep
    cases hstep
    refine ⟨o, e.now, ?_⟩
    rw [hwhole]
    exact hrest
  unfold advance at h
  dsimp only at h
  cases hitem : s.house.auctionItems[auctionId]? with
  | none =>
      simp only [hitem] at h
      exact hrefused default (by simp [purchaseItem, hitem])
        (Option.some.inj h).symm
  | some listing =>
      simp only [hitem] at h
      by_cases hactive : listing.status = .active
      · rw [if_neg (not_not_intro hactive)] at h
        by_cases hown : listing.sellerId = buyerId
        · rw [if_pos hown] at h
          exact hrefused default (by simp [purchaseItem, hitem, hactive, hown])
            (Option.some.inj h).symm
        · rw [if_neg hown] at h
          have hoffer : s.OnOffer auctionId buyerId listing :=
            ⟨hitem, hactive, hown⟩
          have hunpaid : ∀ o : PurchaseOutcomes,
              settle s.db o listing buyerId = (false, s.db) →
                s.purchaseItem o e.now auctionId buyerId = (false, s) := by
            intro o hsettle
            rw [purchaseItem_of_onOffer o e.now hoffer, hsettle]
            rfl
          cases hbuyer : s.db.getUserInfo e.read buyerId with
          | error ex =>
              simp only [hbuyer] at h
              refine hrefused ⟨e.read, default, default, default, default⟩
                (hunpaid _ ?_) (Option.some.inj h).symm
              simp [settle, hbuyer]
          | ok info =>
              cases info with
              | none =>
                  simp only [hbuyer] at h
                  refine hrefused ⟨e.read, default, default, default, default⟩
                    (hunpaid _ ?_) (Option.some.inj h).symm
                  simp [settle, hbuyer]
              | some buyer =>
                  simp only [hbuyer] at h
                  by_cases hpays : buyer.balance < listing.price
                  · rw [if_pos hpays] at h
                    refine hrefused ⟨e.read, default, default, default, default⟩
                      (hunpaid _ ?_) (Option.some.inj h).symm
                    simp [settle, hbuyer, hpays]
                  · rw [if_neg hpays] at h
                    cases h
                    obtain ⟨o, now, hcredit⟩ := hrest
                    refine ⟨{ o with buyer := e.read }, now, ?_⟩
                    rw [purchaseItem_eq_afterCredit hoffer now hbuyer hpays]
                    exact hcredit
      · rw [if_pos hactive] at h
        exact hrefused default (by simp [purchaseItem, hitem, hactive])
          (Option.some.inj h).symm

theorem ends_crediting {auctionId : UInt64} {buyerId : UInt32}
    {listing : AuctionItem} {m : BalanceProgress} {e : Encounter}
    (h : s.advance (.crediting auctionId buyerId listing m) e = some (s', x))
    (hrest : Continues s' x r t) :
    Ends s (.crediting auctionId buyerId listing m) r t := by
  unfold advance at h
  dsimp only at h
  rcases hstep : s.db.updateUserBalanceStep m ⟨e.read, e.write⟩ with
    ⟨db, m' | ⟨c, _ | _⟩⟩
  · simp only [hstep] at h
    cases h
    obtain ⟨o, now, hcredit⟩ := hrest
    obtain ⟨credit, hfinish⟩ := Database.finishBalance_of_goes hstep o.credit
    refine ⟨{ o with credit }, now, ?_⟩
    rw [hfinish]
    exact hcredit
  · simp only [hstep] at h
    cases h
    refine ⟨{ (default : PurchaseOutcomes) with credit := ⟨e.read, e.write⟩ },
      e.now, ?_⟩
    rw [Database.finishBalance_of_ends hstep]
    exact hrest
  · simp only [hstep] at h
    cases h
    obtain ⟨o, now, hdebit⟩ := hrest
    refine ⟨{ o with credit := ⟨e.read, e.write⟩ }, now, ?_⟩
    rw [Database.finishBalance_of_ends hstep]
    exact hdebit

theorem ends_debiting {auctionId : UInt64} {buyerId : UInt32}
    {listing : AuctionItem} {m : BalanceProgress} {e : Encounter}
    (h : s.advance (.debiting auctionId buyerId listing m) e = some (s', x))
    (hrest : Continues s' x r t) :
    Ends s (.debiting auctionId buyerId listing m) r t := by
  unfold advance at h
  dsimp only at h
  rcases hstep : s.db.updateUserBalanceStep m ⟨e.read, e.write⟩ with
    ⟨db, m' | ⟨c, _ | _⟩⟩
  · simp only [hstep] at h
    cases h
    obtain ⟨o, now, hdebit⟩ := hrest
    obtain ⟨debit, hfinish⟩ := Database.finishBalance_of_goes hstep o.debit
    refine ⟨{ o with debit }, now, ?_⟩
    rw [hfinish]
    exact hdebit
  · simp only [hstep] at h
    cases h
    refine ⟨{ (default : PurchaseOutcomes) with debit := ⟨e.read, e.write⟩ },
      e.now, ?_⟩
    rw [Database.finishBalance_of_ends hstep]
    exact hrest
  · simp only [hstep] at h
    cases h
    obtain ⟨item, seller, hwrite⟩ := hrest
    refine ⟨{ (default : PurchaseOutcomes) with
      debit := ⟨e.read, e.write⟩, item, seller }, e.now, ?_⟩
    rw [Database.finishBalance_of_ends hstep]
    exact hwrite

theorem ends_selling {sold : AuctionItem} {m : ItemWrite} {e : Encounter}
    (h : s.advance (.selling sold m) e = some (s', x))
    (hrest : Continues s' x r t) : Ends s (.selling sold m) r t := by
  unfold advance at h
  dsimp only at h
  rcases hstep : s.db.updateAuctionItemStep m e.write with
    ⟨db, m' | ex | _ | _⟩
  · simp only [hstep] at h
    cases h
    obtain ⟨o, seller, hwrite⟩ := hrest
    obtain ⟨o', hfinish⟩ := Database.finishItem_of_goes hstep o
    refine ⟨o', seller, ?_⟩
    rw [hfinish]
    exact hwrite
  · simp only [hstep] at h
    cases h
    refine ⟨⟨e.write, e.write⟩, e.read, ?_⟩
    rw [Database.finishItem_of_ends hstep]
    exact hrest
  · simp only [hstep] at h
    cases h
    refine ⟨⟨e.write, e.write⟩, e.read, ?_⟩
    rw [Database.finishItem_of_ends hstep]
    exact hrest
  · simp only [hstep] at h
    cases h
    obtain ⟨seller, hfinish⟩ := hrest
    refine ⟨⟨e.write, e.write⟩, seller, ?_⟩
    rw [Database.finishItem_of_ends hstep]
    exact hfinish

theorem ends_handingOver {sold : AuctionItem} {e : Encounter}
    (h : s.advance (.handingOver sold) e = some (s', x))
    (hrest : Continues s' x r t) : Ends s (.handingOver sold) r t := by
  cases h
  exact ⟨e.read, hrest⟩

/-! ### Cancellations -/

theorem ends_withdrawing {auctionId : UInt64} {sellerId : UInt32}
    {e : Encounter}
    (h : s.advance (.withdrawing auctionId sellerId) e = some (s', x))
    (hrest : Continues s' x r t) :
    Ends s (.withdrawing auctionId sellerId) r t := by
  by_cases hcancellable : ∃ listing, s.Cancellable auctionId sellerId listing
  · obtain ⟨listing, hcancellable⟩ := hcancellable
    obtain ⟨hitem, hactive, rfl⟩ := id hcancellable
    unfold advance at h
    simp only [hitem, hactive, ne_eq, not_true_eq_false, if_false] at h
    cases h
    obtain ⟨o, seller, hwrite⟩ := hrest
    refine ⟨⟨o, seller⟩, ?_⟩
    rw [cancelListing_eq_afterCancel hcancellable]
    exact hwrite
  · have hnone := fun listing hl => hcancellable ⟨listing, hl⟩
    refine ⟨default, ?_⟩
    rw [cancelListing_of_not_cancellable default hnone]
    have hstep : s.advance (.withdrawing auctionId sellerId) e =
        some (s, .inr (.cancelled (.ok false))) := by
      cases hitem : s.house.auctionItems[auctionId]? with
      | none =>
          unfold advance
          simp only [hitem]
      | some listing =>
          by_cases hactive : listing.status = .active
          · have hseller : listing.sellerId ≠ sellerId := fun heq =>
              hnone listing ⟨hitem, hactive, heq⟩
            unfold advance
            simp [hitem, hactive, hseller]
          · unfold advance
            simp [hitem, hactive]
    cases hstep.symm.trans h
    exact hrest

theorem ends_cancelling {cancelled : AuctionItem} {m : ItemWrite} {e : Encounter}
    (h : s.advance (.cancelling cancelled m) e = some (s', x))
    (hrest : Continues s' x r t) : Ends s (.cancelling cancelled m) r t := by
  unfold advance at h
  dsimp only at h
  rcases hstep : s.db.updateAuctionItemStep m e.write with
    ⟨db, m' | ex | _ | _⟩
  · simp only [hstep] at h
    cases h
    obtain ⟨o, seller, hwrite⟩ := hrest
    obtain ⟨o', hfinish⟩ := Database.finishItem_of_goes hstep o
    refine ⟨o', seller, ?_⟩
    rw [hfinish]
    exact hwrite
  · simp only [hstep] at h
    cases h
    refine ⟨⟨e.write, e.write⟩, e.read, ?_⟩
    rw [Database.finishItem_of_ends hstep]
    exact hrest
  · simp only [hstep] at h
    cases h
    refine ⟨⟨e.write, e.write⟩, e.read, ?_⟩
    rw [Database.finishItem_of_ends hstep]
    exact hrest
  · simp only [hstep] at h
    cases h
    obtain ⟨seller, hfinish⟩ := hrest
    refine ⟨⟨e.write, e.write⟩, seller, ?_⟩
    rw [Database.finishItem_of_ends hstep]
    exact hfinish

theorem ends_removing {cancelled : AuctionItem} {e : Encounter}
    (h : s.advance (.removing cancelled) e = some (s', x))
    (hrest : Continues s' x r t) : Ends s (.removing cancelled) r t := by
  cases h
  exact ⟨e.read, hrest⟩

/-! ### Sweeps -/

theorem ends_sweeping {e : Encounter} (h : s.advance .sweeping e = some (s', x))
    (hrest : Continues s' x r t) : Ends s .sweeping r t := by
  unfold advance at h
  dsimp only at h
  by_cases horder : e.order.isPerm s.house.auctionItems.keys = true
  · rw [if_pos horder] at h
    cases h
    obtain ⟨o, hfinish⟩ := hrest (nodup_of_isPerm_keys horder)
    refine ⟨o, e.now, e.order, horder, ?_⟩
    rw [processExpiredItems_eq]
    exact hfinish
  · rw [if_neg horder] at h
    cases h

theorem ends_expiring {now : Time} {ids expiredIds : List UInt64} {e : Encounter}
    (h : s.advance (.expiring now ids expiredIds) e = some (s', x))
    (hrest : Continues s' x r t) : Ends s (.expiring now ids expiredIds) r t := by
  intro hnodup
  cases ids with
  | nil =>
      cases h
      rw [List.append_nil] at hnodup
      obtain ⟨seller, hfinish⟩ := hrest hnodup
      refine ⟨⟨default, seller⟩, ?_⟩
      rw [finishExpiring_nil]
      exact hfinish
  | cons id ids =>
      have hrestNodup : (expiredIds ++ ids).Nodup :=
        hnodup.sublist ((List.sublist_cons_self id ids).append_left expiredIds)
      unfold advance at h
      dsimp only at h
      cases hitem : s.house.auctionItems[id]? with
      | none =>
          simp only [hitem] at h
          cases h
          obtain ⟨o, hfinish⟩ := hrest hrestNodup
          refine ⟨o, ?_⟩
          rw [finishExpiring_of_none hitem]
          exact hfinish
      | some item =>
          simp only [hitem] at h
          by_cases hexpired : isExpired now item = true
          · rw [if_pos hexpired] at h
            cases h
            obtain ⟨io, o, hfinish⟩ := hrest hnodup
            refine ⟨{ o with item := Function.update o.item id io }, ?_⟩
            rw [finishExpiring_of_expired hitem hexpired, ← hfinish]
            simp only [Function.update_self]
            have hother : ∀ (u : Server) (done : List UInt64),
                u.finishExpiring { o with item := Function.update o.item id io }
                  now ids done = u.finishExpiring o now ids done := by
              intro u done
              simp only [finishExpiring]
              rw [expireItems_congr]
              intro i hi
              have hne : i ≠ id := by
                rintro rfl
                exact (List.nodup_cons.mp (List.nodup_append.mp hnodup).2.1).1 hi
              exact Function.update_of_ne hne _ _
            simp only [finishStoring, hother]
            rfl
          · rw [if_neg hexpired] at h
            cases h
            obtain ⟨o, hfinish⟩ := hrest hrestNodup
            refine ⟨o, ?_⟩
            rw [finishExpiring_of_not_expired hitem hexpired]
            exact hfinish

theorem ends_storing {now : Time} {id : UInt64} {ids expiredIds : List UInt64}
    {m : ItemWrite} {e : Encounter}
    (h : s.advance (.storing now id ids expiredIds m) e = some (s', x))
    (hrest : Continues s' x r t) :
    Ends s (.storing now id ids expiredIds m) r t := by
  intro hnodup
  unfold advance at h
  dsimp only at h
  rcases hstep : s.db.updateAuctionItemStep m e.write with
    ⟨db, m' | ex | _ | _⟩
  · simp only [hstep] at h
    cases h
    obtain ⟨io, o, hwrite⟩ := hrest hnodup
    obtain ⟨io', hfinish⟩ := Database.finishItem_of_goes hstep io
    refine ⟨io', o, ?_⟩
    rw [hfinish]
    exact hwrite
  · simp only [hstep] at h
    cases h
    refine ⟨⟨e.write, e.write⟩, default, ?_⟩
    rw [Database.finishItem_of_ends hstep]
    exact hrest
  · simp only [hstep] at h
    cases h
    have hrestNodup : (expiredIds ++ ids).Nodup :=
      hnodup.sublist ((List.sublist_cons_self id ids).append_left expiredIds)
    obtain ⟨o, hfinish⟩ := hrest hrestNodup
    refine ⟨⟨e.write, e.write⟩, o, ?_⟩
    rw [Database.finishItem_of_ends hstep]
    exact hfinish
  · simp only [hstep] at h
    cases h
    rw [← List.singleton_append, ← List.append_assoc] at hnodup
    obtain ⟨o, hfinish⟩ := hrest hnodup
    refine ⟨⟨e.write, e.write⟩, o, ?_⟩
    rw [Database.finishItem_of_ends hstep]
    exact hfinish

theorem ends_clearing {expiredIds : List UInt64} {e : Encounter}
    (h : s.advance (.clearing expiredIds) e = some (s', x))
    (hrest : Continues s' x r t) : Ends s (.clearing expiredIds) r t := by
  intro hnodup
  cases expiredIds with
  | nil =>
      cases h
      exact ⟨fun _ => .answered, hrest⟩
  | cons id ids =>
      obtain ⟨hnew, hnodup⟩ := List.nodup_cons.mp hnodup
      unfold advance at h
      dsimp only at h
      cases hitem : s.house.auctionItems[id]? with
      | none =>
          simp only [hitem] at h
          cases h
          obtain ⟨seller, hfinish⟩ := hrest hnodup
          refine ⟨seller, ?_⟩
          rw [← hfinish]
          simp [finishClearing, removeExpired, hitem]
      | some item =>
          simp only [hitem] at h
          rcases hremoved : s.house.removeFromIndices s.db e.read item with
            ⟨ex | u, house⟩
          · simp only [hremoved] at h
            cases h
            refine ⟨fun _ => e.read, ?_⟩
            rw [← hrest]
            simp [finishClearing, removeExpired, hitem, hremoved]
          · simp only [hremoved] at h
            cases h
            obtain ⟨seller, hfinish⟩ := hrest hnodup
            refine ⟨Function.update seller id e.read, ?_⟩
            have hother : removeExpired (Function.update seller id e.read) s.db ids
                house = removeExpired seller s.db ids house := by
              refine removeExpired_congr ?_ s.db house
              intro i hi
              have hne : i ≠ id := by
                rintro rfl
                exact hnew hi
              exact Function.update_of_ne hne _ _
            rw [← hfinish]
            simp [finishClearing, removeExpired, hitem, hremoved, hother]

/-! ### Every call -/

/-- A step leaves the rest of what was left before it. -/
theorem ends_of_advance {m : CallProgress} {e : Encounter}
    (h : s.advance m e = some (s', x)) (hrest : Continues s' x r t) :
    Ends s m r t := by
  cases m with
  | saving sellerId item price => exact ends_saving h hrest
  | filing item listing => exact ends_filing h hrest
  | looking criteria => exact ends_looking h hrest
  | matching criteria ids results => exact ends_matching h hrest
  | checking auctionId buyerId => exact ends_checking h hrest
  | crediting auctionId buyerId listing m => exact ends_crediting h hrest
  | debiting auctionId buyerId listing m => exact ends_debiting h hrest
  | selling sold m => exact ends_selling h hrest
  | handingOver sold => exact ends_handingOver h hrest
  | withdrawing auctionId sellerId => exact ends_withdrawing h hrest
  | cancelling cancelled m => exact ends_cancelling h hrest
  | removing cancelled => exact ends_removing h hrest
  | sweeping => exact ends_sweeping h hrest
  | expiring now ids expiredIds => exact ends_expiring h hrest
  | storing now id ids expiredIds m => exact ends_storing h hrest
  | clearing expiredIds => exact ends_clearing h hrest

/-- A call made step by step is the whole call. -/
theorem ends_of_returns {m : CallProgress}
    (h : houseCalls.Returns s m r t) : Ends s m r t := by
  induction h with
  | last hstep => exact ends_of_advance hstep rfl
  | goes hstep _ ih => exact ends_of_advance hstep ih

end Ends

end Server

end AuctionServer
