import AuctionServer.House.Maintenance
import AuctionServer.House.Server
import AuctionServer.House.Settlement

/-!
# What a call can do to the server

Every call is a sequence of a few kinds of moves: it touches nothing but
balances and the cache, it assigns an id, it closes a listing, it withdraws a
closed listing from some index keys, or it reloads the house.  A move
remembers which writes took effect and, when the seller lookups are answered,
that a new listing was filed under all of its keys.

Invariants are stated about moves, so each of them looks at five cases and
never at the code of an operation.
-/

namespace AuctionServer

open Relation (ReflTransGen)
open AuctionHouse (SameListings listingKeys)

namespace Server

/-- Every active listing is filed under its type, its price and, when the
seller is known, the name of its seller. -/
def Covered (s : Server) : Prop :=
  ∀ id item, s.house.auctionItems[id]? = some item → item.status = .active →
    ∀ k ∈ listingKeys item (s.db.usernameOf item.sellerId),
      s.house.Files k id

/-- What a call can rely on: its seller lookups are answered, none of its
writes is lost, and ids neither wrap around nor fall back to a stored one. -/
structure Guarantees where
  lookups : Prop
  writes : Prop
  ids : Prop

/-- One move of the server. -/
inductive Move (g : Guarantees) : Server → Server → Prop
  | touch {s s' : Server}
      (hhouse : s'.house = s.house)
      (hauctions : s'.db.auctions = s.db.auctions)
      (hnames : s.db.SameNames s'.db) :
      Move g s s'
  | assign {s s' : Server} {item : AuctionItem} {kept applied : Bool}
      {keys : Set IndexKey}
      (hid : item.id = s.house.nextAuctionId)
      (hactive : item.status = .active)
      (hkept : kept = true → applied = true)
      (hwrites : g.writes → kept = true)
      (hids : g.ids → item.id ≠ -1)
      (hnext : s'.house.nextAuctionId = item.id + 1)
      (hitems : s'.house.auctionItems =
        if kept then s.house.auctionItems.insert item.id item
        else s.house.auctionItems)
      (hfiles : ∀ k i, s'.house.Files k i ↔
        s.house.Files k i ∨ (kept = true ∧ k ∈ keys ∧ i = item.id))
      (hkeys : g.lookups → kept = true →
        listingKeys item (s.db.usernameOf item.sellerId) ⊆ keys)
      (hdb : s'.db =
        { s.db with
          auctions :=
            if applied then s.db.auctions ++ [itemToBson item]
            else s.db.auctions }) :
      Move g s s'
  | close {s s' : Server} {id : UInt64} {old new : AuctionItem}
      {applied : Bool}
      (hold : s.house.auctionItems[id]? = some old)
      (hactive : old.status = .active)
      (hclosed : new.status ≠ .active)
      (hid : new.id = old.id)
      (hwrites : g.writes → applied = true)
      (hhouse : s'.house = s.house.setItem id new)
      (hauctions : s'.db.auctions =
        if applied then (s.db.setAuction new).auctions else s.db.auctions)
      (husers : s'.db.users = s.db.users) :
      Move g s s'
  | withdraw {s s' : Server} {id : UInt64} {item : AuctionItem}
      {keys : Set IndexKey}
      (hitem : s.house.auctionItems[id]? = some item)
      (hclosed : item.status ≠ .active)
      (hsame : SameListings s.house s'.house)
      (hfiles : s.house.Withdraws s'.house keys item.id)
      (hdb : s'.db = s.db) :
      Move g s s'
  | reload {s s' : Server} {loaded : List AuctionItem}
      (hfrom : ∀ item ∈ loaded, ∃ doc ∈ s.db.auctions, bsonToItem doc = item)
      (hitems : ∀ id item, s'.house.auctionItems[id]? = some item →
        item ∈ loaded ∧ item.id = id)
      (hloaded : ∀ item ∈ loaded, item.id ∈ s'.house.auctionItems)
      (hids : g.ids → ∀ doc ∈ s.db.auctions,
        doc.id.toUInt64 < s'.house.nextAuctionId)
      (hfiles : ∀ k i, s'.house.Files k i → i ∈ s'.house.auctionItems)
      (hcovered : g.lookups → s'.Covered)
      (hall : g.writes → ∀ doc ∈ s.db.auctions, bsonToItem doc ∈ loaded)
      (hdb : s'.db = s.db) :
      Move g s s'

/-! ## Registration -/

/-- A registration whose insert does not succeed uses up its id. -/
theorem registerItem_of_ne_done (s : Server) {o : RegisterOutcomes} (now : Time)
    (sellerId : UInt32) (item : Item) (price : UInt32)
    (hinsert : o.insert ≠ .done) :
    s.registerItem o now sellerId item price =
      (.ok 0,
        { house := { s.house with nextAuctionId := s.house.nextAuctionId + 1 }
          db :=
            { s.db with
              auctions :=
                if o.insert.applied then
                  s.db.auctions ++ [itemToBson
                    (newListing s.house.nextAuctionId now sellerId item price)]
                else s.db.auctions } }) := by
  cases h : o.insert with
  | done => exact (hinsert h).elim
  | refused applied =>
      cases applied <;>
        simp [registerItem, Database.saveAuctionItem, h, WriteOutcome.reports,
          WriteOutcome.store, WriteOutcome.applied]
  | raised applied =>
      cases applied <;>
        simp [registerItem, Database.saveAuctionItem, h, WriteOutcome.reports,
          WriteOutcome.store, WriteOutcome.applied]

/-- The database once the document of a registration is stored. -/
def stored (s : Server) (now : Time) (sellerId : UInt32) (item : Item)
    (price : UInt32) : Database :=
  { s.db with
    auctions := s.db.auctions ++
      [itemToBson (newListing s.house.nextAuctionId now sellerId item price)] }

/-- The house of a registration that has counted its id and put the listing
under it. -/
def accepted (s : Server) (now : Time) (sellerId : UInt32) (item : Item)
    (price : UInt32) : AuctionHouse :=
  AuctionHouse.setItem
    { s.house with nextAuctionId := s.house.nextAuctionId + 1 }
    s.house.nextAuctionId
    (newListing s.house.nextAuctionId now sellerId item price)

/-- The call to `updateIndices` of a stored registration. -/
def filing (s : Server) (o : RegisterOutcomes) (now : Time) (sellerId : UInt32)
    (item : Item) (price : UInt32) : Except StoreException Unit × AuctionHouse :=
  (s.accepted now sellerId item price).updateIndices
    (s.stored now sellerId item price) o.seller
    (newListing s.house.nextAuctionId now sellerId item price)

/-- A stored registration files its listing. -/
theorem registerItem_of_filing (s : Server) {o : RegisterOutcomes}
    (now : Time) (sellerId : UInt32) (item : Item) (price : UInt32)
    (hinsert : o.insert = .done) {result : Except StoreException Unit}
    {house : AuctionHouse}
    (hfiling : s.filing o now sellerId item price = (result, house)) :
    s.registerItem o now sellerId item price =
      (result.map fun _ => s.house.nextAuctionId,
        { house :=
            if result = .ok () then
              house.indexItemKeywords s.house.nextAuctionId item
            else house
          db := s.stored now sellerId item price }) := by
  have hsave : s.db.saveAuctionItem o.insert
      (newListing s.house.nextAuctionId now sellerId item price) =
        (true, s.stored now sellerId item price) := by
    simp [Database.saveAuctionItem, hinsert, WriteOutcome.reports, stored]
  rw [filing, accepted] at hfiling
  simp only [registerItem]
  rw [hsave]
  simp only
  rw [hfiling]
  cases result with
  | error e => simp [Except.map]
  | ok u => simp [Except.map]

/-- A stored registration puts the listing in memory and files it under some
keys, under all of its keys when the seller lookup is answered. -/
theorem registerItem_of_done (s : Server) {o : RegisterOutcomes} (now : Time)
    (sellerId : UInt32) (item : Item) (price : UInt32)
    (hinsert : o.insert = .done) :
    ∃ keys house, (s.registerItem o now sellerId item price).2 =
        { house, db := s.stored now sellerId item price } ∧
      house.nextAuctionId = s.house.nextAuctionId + 1 ∧
      house.auctionItems = s.house.auctionItems.insert s.house.nextAuctionId
        (newListing s.house.nextAuctionId now sellerId item price) ∧
      s.house.Adds house keys s.house.nextAuctionId ∧
      (o.seller = .answered → s.db.BalancesReadable →
        (s.registerItem o now sellerId item price).1 =
            .ok s.house.nextAuctionId ∧
          listingKeys
            (newListing s.house.nextAuctionId now sellerId item price)
            (s.db.usernameOf sellerId) ⊆ keys) := by
  let id := s.house.nextAuctionId
  let listing := newListing id now sellerId item price
  have hcases := AuctionHouse.updateIndices_cases
    (s.accepted now sellerId item price) (s.stored now sellerId item price)
    o.seller listing
  rcases hfiling : s.filing o now sellerId item price with ⟨result, house⟩
  rw [← filing, hfiling] at hcases
  obtain ⟨hsame, keys, hadds, hall⟩ := hcases
  have heq := registerItem_of_filing s now sellerId item price hinsert hfiling
  obtain ⟨hsame', hadds'⟩ := house.indexItemKeywords_adds id item
  by_cases hok : result = .ok ()
  · rw [if_pos hok] at heq
    refine ⟨_, house.indexItemKeywords id item, by rw [heq], ?_, ?_,
      hadds.trans hadds', ?_⟩
    · rw [hsame'.2, hsame.2]
      rfl
    · rw [hsame'.1, hsame.1]
      rfl
    · intro hseller hreadable
      obtain ⟨-, hkeys⟩ := hall hseller hreadable rfl
      rw [heq, hok]
      refine ⟨rfl, ?_⟩
      rw [hkeys]
      exact Set.subset_union_left
  · rw [if_neg hok] at heq
    refine ⟨keys, house, by rw [heq], ?_, ?_, hadds, ?_⟩
    · rw [hsame.2]
      rfl
    · rw [hsame.1]
      rfl
    · intro hseller hreadable
      exact (hok (hall hseller hreadable rfl).1).elim

theorem registerItem_move {g : Guarantees} {s : Server} {o : RegisterOutcomes}
    (now : Time) (sellerId : UInt32) (item : Item) (price : UInt32)
    (hlookups : g.lookups → o.seller = .answered ∧ s.db.BalancesReadable)
    (hwrites : g.writes → o.insert = .done)
    (hids : g.ids → s.house.nextAuctionId ≠ -1) :
    Move g s (s.registerItem o now sellerId item price).2 := by
  let listing := newListing s.house.nextAuctionId now sellerId item price
  by_cases hinsert : o.insert = .done
  · obtain ⟨keys, house, heq, hnext, hitems, hadds, hkeys⟩ :=
      registerItem_of_done s now sellerId item price hinsert
    rw [heq]
    refine @Move.assign g s _ listing true true keys rfl rfl (fun h => h)
      (fun _ => rfl) hids hnext hitems ?_ ?_ rfl
    · intro k i
      simp only [true_and]
      exact hadds k i
    · intro hl _
      exact (hkeys (hlookups hl).1 (hlookups hl).2).2
  · rw [registerItem_of_ne_done s now sellerId item price hinsert]
    refine @Move.assign g s _ listing false o.insert.applied ∅ rfl rfl
      (by simp) (fun h => (hinsert (hwrites h)).elim) hids rfl rfl ?_ (by simp)
      rfl
    intro k i
    cases k <;> simp [AuctionHouse.Files]

/-! ## Closing one listing -/

/-- The server after a listing is replaced by a closed one: the update is
written, and when it succeeds the listing leaves the indices. -/
def afterClose (s : Server) (o : ItemUpdateOutcomes) (seller : ReadOutcome)
    (id : UInt64) (new : AuctionItem) : Server :=
  let house := s.house.setItem id new
  let db := (s.db.updateAuctionItem o new).2
  match (s.db.updateAuctionItem o new).1 with
  | .ok true => { house := (house.removeFromIndices db seller new).2, db }
  | _ => { house, db }

theorem setItem_self (house : AuctionHouse) (id : UInt64) (item : AuctionItem) :
    (house.setItem id item).auctionItems[id]? = some item := by
  simp [AuctionHouse.setItem]

theorem setItem_of_ne (house : AuctionHouse) {id id' : UInt64}
    (item : AuctionItem) (hne : id ≠ id') :
    (house.setItem id item).auctionItems[id']? = house.auctionItems[id']? := by
  simp [AuctionHouse.setItem, Std.ExtTreeMap.getElem?_insert, hne]

theorem close_move {g : Guarantees} {s : Server} {id : UInt64}
    {old new : AuctionItem} {o : ItemUpdateOutcomes}
    (hold : s.house.auctionItems[id]? = some old) (hactive : old.status = .active)
    (hclosed : new.status ≠ .active) (hid : new.id = old.id)
    (hwrites : g.writes → o.update = .done) :
    Move g s
      { house := s.house.setItem id new
        db := (s.db.updateAuctionItem o new).2 } := by
  refine @Move.close g s _ id old new o.update.applied hold hactive hclosed hid
    ?_ rfl ?_ ?_
  · intro h
    rw [hwrites h]
    rfl
  · rw [Database.updateAuctionItem_auctions]
    rfl
  · exact Database.updateAuctionItem_users s.db o new

theorem withdraw_move {g : Guarantees} {s : Server} {id : UInt64}
    {item : AuctionItem} (seller : ReadOutcome)
    (hitem : s.house.auctionItems[id]? = some item)
    (hclosed : item.status ≠ .active) :
    Move g s
      { s with house := (s.house.removeFromIndices s.db seller item).2 } := by
  obtain ⟨hsame, keys, hwithdraws⟩ :=
    s.house.removeFromIndices_cases s.db seller item
  exact .withdraw hitem hclosed hsame hwithdraws rfl

theorem afterClose_moves {g : Guarantees} {s : Server} {id : UInt64}
    {old new : AuctionItem} {o : ItemUpdateOutcomes} (seller : ReadOutcome)
    (hold : s.house.auctionItems[id]? = some old) (hactive : old.status = .active)
    (hclosed : new.status ≠ .active) (hid : new.id = old.id)
    (hwrites : g.writes → o.update = .done) :
    ReflTransGen (Move g) s (s.afterClose o seller id new) := by
  have hfirst : ReflTransGen (Move g) s
      { house := s.house.setItem id new
        db := (s.db.updateAuctionItem o new).2 } :=
    ReflTransGen.single (close_move hold hactive hclosed hid hwrites)
  simp only [afterClose]
  split
  · exact hfirst.tail
      (withdraw_move seller (setItem_self s.house id new) hclosed)
  · exact hfirst

theorem afterClose_items (s : Server) (o : ItemUpdateOutcomes)
    (seller : ReadOutcome) (id : UInt64) (new : AuctionItem) :
    (s.afterClose o seller id new).house.auctionItems =
      (s.house.setItem id new).auctionItems := by
  simp only [afterClose]
  split
  · exact ((s.house.setItem id new).removeFromIndices_cases _ seller new).1.1
  · rfl

theorem afterClose_item (s : Server) (o : ItemUpdateOutcomes)
    (seller : ReadOutcome) (id : UInt64) (new : AuctionItem) :
    (s.afterClose o seller id new).house.auctionItems[id]? = some new := by
  rw [afterClose_items]
  exact setItem_self s.house id new

/-- Handing a sold listing over closes it; it succeeds when the update does
and the seller can be read. -/
theorem handOver_eq (s : Server) (o : PurchaseOutcomes)
    (transaction : Transaction) (now : Time) (auctionId : UInt64)
    (listing : AuctionItem) (buyerId : UInt32) :
    let sold := soldListing listing buyerId now
    (s.handOver o transaction now auctionId listing buyerId).2 =
        s.afterClose o.item o.seller auctionId sold ∧
      ((s.handOver o transaction now auctionId listing buyerId).1 = true ↔
        s.db.ItemUpdateSucceeds o.item sold ∧
          ∃ info, (s.db.updateAuctionItem o.item sold).2.getUserInfo o.seller
            listing.sellerId = .ok info) := by
  intro sold
  rw [← Database.updateAuctionItem_fst_eq_true]
  rcases hupdate : s.db.updateAuctionItem o.item sold with ⟨result, db⟩
  cases result with
  | error e => simp [handOver, afterClose, sold, hupdate, abandon,
      Transaction.rollback]
  | ok modified =>
      cases modified with
      | false => simp [handOver, afterClose, sold, hupdate, abandon,
          Transaction.rollback]
      | true =>
          have hremove : ((s.house.setItem auctionId sold).removeFromIndices db
              o.seller sold).1 = .ok () ↔
              ∃ info, db.getUserInfo o.seller listing.sellerId = .ok info :=
            AuctionHouse.removeFromIndices_fst
          rcases hresult : (s.house.setItem auctionId sold).removeFromIndices db
            o.seller sold with ⟨result, house⟩
          rw [hresult] at hremove
          rw [← hremove]
          cases result with
          | error e =>
              simp [handOver, afterClose, sold, hupdate, hresult, abandon,
                Transaction.rollback]
          | ok u => simp [handOver, afterClose, sold, hupdate, hresult]

/-! ## Purchase -/

/-- The purchase gets as far as the balances: the listing is on offer, and the
buyer is not its seller. -/
def OnOffer (s : Server) (auctionId : UInt64) (buyerId : UInt32)
    (listing : AuctionItem) : Prop :=
  s.house.auctionItems[auctionId]? = some listing ∧
    listing.status = .active ∧ listing.sellerId ≠ buyerId

theorem purchaseItem_of_not_onOffer {s : Server} {auctionId : UInt64}
    {buyerId : UInt32} (o : PurchaseOutcomes) (now : Time)
    (h : ∀ listing, ¬ s.OnOffer auctionId buyerId listing) :
    s.purchaseItem o now auctionId buyerId = (false, s) := by
  cases hitem : s.house.auctionItems[auctionId]? with
  | none => simp [purchaseItem, hitem]
  | some listing =>
      by_cases hactive : listing.status = .active
      · by_cases hown : listing.sellerId = buyerId
        · simp [purchaseItem, hitem, hactive, hown]
        · exact (h listing ⟨hitem, hactive, hown⟩).elim
      · simp [purchaseItem, hitem, hactive]

/-- A purchase that is not settled stops there; a settled one goes on to hand
the listing over. -/
theorem purchaseItem_of_onOffer {s : Server} {auctionId : UInt64}
    {buyerId : UInt32} {listing : AuctionItem} (o : PurchaseOutcomes)
    (now : Time) (h : s.OnOffer auctionId buyerId listing) :
    s.purchaseItem o now auctionId buyerId =
      if (settle s.db o listing buyerId).1 = true then
        handOver { s with db := (settle s.db o listing buyerId).2 } o
          s.db.beginTransaction now auctionId listing buyerId
      else (false, { s with db := (settle s.db o listing buyerId).2 }) := by
  obtain ⟨hitem, hactive, hown⟩ := h
  rcases hsettle : settle s.db o listing buyerId with ⟨settled, db⟩
  cases settled with
  | false =>
      simp [purchaseItem, hitem, hactive, hown, hsettle, abandon,
        Transaction.rollback]
  | true => simp [purchaseItem, hitem, hactive, hown, hsettle]

/-- What survives paying, and then closing the listing, survives a purchase. -/
theorem purchaseItem_keeps {P : Server → Prop} {s : Server}
    (o : PurchaseOutcomes) (now : Time) (auctionId : UInt64) (buyerId : UInt32)
    (hpays : ∀ listing, P s →
      P { s with db := (settle s.db o listing buyerId).2 })
    (hcloses : ∀ listing, s.OnOffer auctionId buyerId listing →
      P { s with db := (settle s.db o listing buyerId).2 } →
        P (afterClose { s with db := (settle s.db o listing buyerId).2 } o.item
          o.seller auctionId (soldListing listing buyerId now)))
    (h : P s) : P (s.purchaseItem o now auctionId buyerId).2 := by
  by_cases hoffer : ∃ listing, s.OnOffer auctionId buyerId listing
  · obtain ⟨listing, hoffer⟩ := hoffer
    have hpaid := hpays listing h
    rw [purchaseItem_of_onOffer o now hoffer]
    split
    · rw [(handOver_eq _ o _ now auctionId listing buyerId).1]
      exact hcloses listing hoffer hpaid
    · exact hpaid
  · rw [purchaseItem_of_not_onOffer o now fun listing hl => hoffer ⟨listing, hl⟩]
    exact h

theorem purchaseItem_moves {g : Guarantees} {s : Server} {o : PurchaseOutcomes}
    (now : Time) (auctionId : UInt64) (buyerId : UInt32)
    (hwrites : g.writes → o.item.update = .done) :
    ReflTransGen (Move g) s (s.purchaseItem o now auctionId buyerId).2 := by
  refine @purchaseItem_keeps (ReflTransGen (Move g) s) s o now auctionId buyerId
    ?_ ?_ ReflTransGen.refl
  · intro listing hmoves
    obtain ⟨hframe, hnames⟩ := settle_frame s.db o listing buyerId
    exact hmoves.tail (.touch rfl (by rw [hframe]) hnames)
  · rintro listing ⟨hitem, hactive, -⟩ hpaid
    exact hpaid.trans (afterClose_moves o.seller hitem hactive
      (by simp [soldListing]) rfl hwrites)

/-! ## Cancellation -/

/-- The listing as it is written when cancelled. -/
def cancelledListing (listing : AuctionItem) : AuctionItem :=
  { listing with status := .cancelled }

/-- The cancellation gets as far as the update. -/
def Cancellable (s : Server) (auctionId : UInt64) (sellerId : UInt32)
    (listing : AuctionItem) : Prop :=
  s.house.auctionItems[auctionId]? = some listing ∧
    listing.status = .active ∧ listing.sellerId = sellerId

theorem cancelListing_of_not_cancellable {s : Server} {auctionId : UInt64}
    {sellerId : UInt32} (o : CancelOutcomes)
    (h : ∀ listing, ¬ s.Cancellable auctionId sellerId listing) :
    s.cancelListing o auctionId sellerId = (.ok false, s) := by
  cases hitem : s.house.auctionItems[auctionId]? with
  | none => simp [cancelListing, hitem]
  | some listing =>
      by_cases hactive : listing.status = .active
      · by_cases hown : listing.sellerId = sellerId
        · exact (h listing ⟨hitem, hactive, hown⟩).elim
        · simp [cancelListing, hitem, hactive, hown]
      · simp [cancelListing, hitem, hactive]

/-- A cancellation closes the listing in memory; it succeeds when the update
does and the seller can be read. -/
theorem cancelListing_of_cancellable {s : Server} {auctionId : UInt64}
    {sellerId : UInt32} {listing : AuctionItem} (o : CancelOutcomes)
    (h : s.Cancellable auctionId sellerId listing) :
    (s.cancelListing o auctionId sellerId).2 =
        s.afterClose o.item o.seller auctionId (cancelledListing listing) ∧
      ((s.cancelListing o auctionId sellerId).1 = .ok true ↔
        s.db.ItemUpdateSucceeds o.item (cancelledListing listing) ∧
          ∃ info, (s.db.updateAuctionItem o.item
            (cancelledListing listing)).2.getUserInfo o.seller sellerId =
              .ok info) := by
  obtain ⟨hitem, hactive, rfl⟩ := h
  let cancelled := cancelledListing listing
  rw [← Database.updateAuctionItem_fst_eq_true]
  rcases hupdate : s.db.updateAuctionItem o.item cancelled with ⟨result, db⟩
  simp only [cancelled, cancelledListing] at hupdate
  cases result with
  | error e =>
      simp [cancelListing, afterClose, cancelledListing, hitem, hactive, hupdate]
  | ok modified =>
      cases modified with
      | false =>
          simp [cancelListing, afterClose, cancelledListing, hitem, hactive,
            hupdate]
      | true =>
          have hremove : ((s.house.setItem auctionId cancelled).removeFromIndices
              db o.seller cancelled).1 = .ok () ↔
              ∃ info, db.getUserInfo o.seller listing.sellerId = .ok info :=
            AuctionHouse.removeFromIndices_fst
          rcases hresult : (s.house.setItem auctionId cancelled).removeFromIndices
            db o.seller cancelled with ⟨result, house⟩
          rw [hresult] at hremove
          simp only [cancelled, cancelledListing] at hresult
          cases result with
          | error e =>
              simp [cancelListing, afterClose, cancelledListing, hitem, hactive,
                hupdate, hresult, ← hremove]
          | ok u =>
              simp [cancelListing, afterClose, cancelledListing, hitem, hactive,
                hupdate, hresult, ← hremove]

/-- What survives closing the listing survives a cancellation. -/
theorem cancelListing_keeps {P : Server → Prop} {s : Server}
    (o : CancelOutcomes) (auctionId : UInt64) (sellerId : UInt32)
    (hcloses : ∀ listing, s.Cancellable auctionId sellerId listing → P s →
      P (s.afterClose o.item o.seller auctionId (cancelledListing listing)))
    (h : P s) : P (s.cancelListing o auctionId sellerId).2 := by
  by_cases hcancellable : ∃ listing, s.Cancellable auctionId sellerId listing
  · obtain ⟨listing, hcancellable⟩ := hcancellable
    rw [(cancelListing_of_cancellable o hcancellable).1]
    exact hcloses listing hcancellable h
  · rw [cancelListing_of_not_cancellable o fun listing hl =>
      hcancellable ⟨listing, hl⟩]
    exact h

theorem cancelListing_moves {g : Guarantees} {s : Server} {o : CancelOutcomes}
    (auctionId : UInt64) (sellerId : UInt32)
    (hwrites : g.writes → o.item.update = .done) :
    ReflTransGen (Move g) s (s.cancelListing o auctionId sellerId).2 := by
  refine @cancelListing_keeps (ReflTransGen (Move g) s) s o auctionId sellerId ?_
    ReflTransGen.refl
  rintro listing ⟨hitem, hactive, -⟩ hmoves
  exact hmoves.trans (afterClose_moves o.seller hitem hactive
    (by simp [cancelledListing]) rfl hwrites)

end Server
end AuctionServer
