import AuctionServer.House.Lifecycle
import AuctionServer.House.Occupied
import AuctionServer.House.OpenListings
import AuctionServer.House.Rebuild
import AuctionServer.House.Users

/-!
# What is filed can be removed

Whatever the store answered, an id is filed under keys of its own listing only:
keys `removeFromIndices` looks at when it is told the seller's name.  Closing a
listing changes none of these keys, and no username ever changes.
-/

namespace AuctionServer

open AuctionHouse (SameListings listingKeys removalKeys insertedKeys)

namespace AuctionHouse

variable {house house' : AuctionHouse} {db : Database} {seller : ReadOutcome}
  {item : AuctionItem}

/-- A lookup that returns names no keys but those of the seller. -/
theorem listingKeys_subset {info : Option UserInfo}
    (hinfo : db.getUserInfo seller item.sellerId = .ok info) :
    listingKeys item (info.map UserInfo.username) ⊆
      listingKeys item (db.usernameOf item.sellerId) := by
  rcases Database.username_of_getUserInfo hinfo with rfl | hname
  · rintro k (hk | hk | ⟨n, hn, -⟩)
    · exact Or.inl hk
    · exact Or.inr (Or.inl hk)
    · cases hn
  · rw [hname]

theorem insertedKeys_subset_removalKeys (db : Database) (seller : ReadOutcome)
    (item : AuctionItem) :
    insertedKeys item (db.sellerName seller item.sellerId) ⊆
      removalKeys item (db.usernameOf item.sellerId) := by
  cases hinfo : db.getUserInfo seller item.sellerId with
  | error e =>
      simp only [Database.sellerName, hinfo]
      rintro k rfl
      exact Or.inl (Or.inl rfl)
  | ok info =>
      simp only [Database.sellerName, hinfo]
      rintro k (hk | ⟨w, -, rfl⟩)
      · exact Or.inl (listingKeys_subset hinfo hk)
      · exact Or.inr ⟨w, rfl⟩

/-- An `updateIndices` that returns files nothing but its listing, under keys
of the listing. -/
theorem files_updateIndices
    (h : house.updateIndices db seller item = (.ok (), house')) {k : IndexKey}
    {i : UInt64} (hfiled : house'.Files k i) :
    house.Files k i ∨
      (k ∈ removalKeys item (db.usernameOf item.sellerId) ∧ i = item.id) := by
  by_cases hactive : item.status = .active
  · cases hinfo : db.getUserInfo seller item.sellerId with
    | error e => simp [updateIndices, hactive, hinfo] at h
    | ok info =>
        obtain ⟨filed, heq, -, -, hadds⟩ := updateIndices_ok house hactive hinfo
        obtain rfl : filed = house' := by
          rw [heq] at h
          exact (Prod.mk.inj h).2
        rcases (hadds k i).mp hfiled with hold | ⟨hk, hi⟩
        · exact Or.inl hold
        · exact Or.inr ⟨Or.inl (listingKeys_subset hinfo hk), hi⟩
  · obtain rfl : house = house' := by simpa [updateIndices, hactive] using h
    exact Or.inl hfiled

end AuctionHouse

namespace Server

/-- What is filed is a listing, under a key it can be removed from. -/
def Removable (s : Server) : Prop :=
  ∀ k id, s.house.Files k id → ∃ item, s.house.auctionItems[id]? = some item ∧
    k ∈ removalKeys item (s.db.usernameOf item.sellerId)

theorem SameOffer.removalKeys_eq {old new : AuctionItem}
    (h : SameOffer old new) (name : Option Bytes) :
    removalKeys new name = removalKeys old name := by
  have htype : new.item.type = old.item.type := by rw [h.item]
  simp only [removalKeys, listingKeys, htype, h.price]

variable {s s' : Server}

/-! ## Calls that only close -/

/-- Closing listings and withdrawing ids keeps what is left removable. -/
theorem Removable.sheds {buyers : Set UInt32} (h : s.Removable)
    (hcloses : Closes buyers s s')
    (hnames : ∀ u, s'.db.usernameOf u = s.db.usernameOf u)
    (hsheds : ∀ k id, s'.house.Files k id → s.house.Files k id) :
    s'.Removable := by
  intro k id hfiled
  obtain ⟨item, hitem, hk⟩ := h k id (hsheds k id hfiled)
  obtain ⟨item', hitem', hclosings⟩ := hcloses.entries.descendant hitem
  have hsame := sameOffer_of_closings hclosings
  refine ⟨item', hitem', ?_⟩
  rw [hsame.removalKeys_eq, hsame.seller, hnames]
  exact hk

variable {k : IndexKey} {id : UInt64}

theorem files_afterClose {o : ItemUpdateOutcomes} {seller : ReadOutcome}
    {i : UInt64} {new : AuctionItem}
    (h : (s.afterClose o seller i new).house.Files k id) :
    s.house.Files k id := by
  simp only [afterClose] at h
  split at h
  · obtain ⟨-, keys, hwithdraws⟩ := (s.house.setItem i
      new).removeFromIndices_cases (s.db.updateAuctionItem o new).2 seller new
    exact AuctionHouse.files_setItem.mp ((hwithdraws k id).mp h).1
  · exact AuctionHouse.files_setItem.mp h

theorem files_purchaseItem {o : PurchaseOutcomes} {now : Time}
    {auctionId : UInt64} {buyerId : UInt32}
    (h : (s.purchaseItem o now auctionId buyerId).2.house.Files k id) :
    s.house.Files k id := by
  revert h
  refine @purchaseItem_keeps (fun s' => s'.house.Files k id → s.house.Files k id)
    s o now auctionId buyerId ?_ ?_ fun h => h
  · exact fun _ hkept => hkept
  · exact fun _ _ hpaid h => hpaid (files_afterClose h)

theorem files_cancelListing {o : CancelOutcomes} {auctionId : UInt64}
    {sellerId : UInt32}
    (h : (s.cancelListing o auctionId sellerId).2.house.Files k id) :
    s.house.Files k id := by
  revert h
  refine @cancelListing_keeps (fun s' => s'.house.Files k id → s.house.Files k id)
    s o auctionId sellerId ?_ fun h => h
  exact fun _ _ hkept h => hkept (files_afterClose h)

/-- The first loop of a sweep does not look at the indices. -/
theorem files_expireItems (o : UInt64 → ItemUpdateOutcomes) (now : Time)
    (ids : List UInt64) (s : Server) :
    (expireItems o now ids s).2.house.Files k id ↔ s.house.Files k id :=
  @expireItems_keeps o now s
    (fun s' => s'.house.Files k id ↔ s.house.Files k id)
    (fun _ _ _ _ hkept => AuctionHouse.files_setItem.trans hkept) ids Iff.rfl

theorem files_processExpiredItems {o : SweepOutcomes} {now : Time}
    {order : List UInt64}
    (h : (s.processExpiredItems o now order).2.house.Files k id) :
    s.house.Files k id := by
  revert h
  refine @processExpiredItems_keeps now s
    (fun s' => s'.house.Files k id → s.house.Files k id) o ?_ ?_ order fun h => h
  · exact fun _ _ _ _ hkept h => hkept (AuctionHouse.files_setItem.mp h)
  · intro s' i item hkept h
    obtain ⟨-, keys, hwithdraws⟩ :=
      s'.house.removeFromIndices_cases s'.db (o.seller i) item
    exact hkept ((hwithdraws k id).mp h).1

/-! ## Calls that file -/

/-- A registration files its new listing under keys of the listing. -/
theorem Removable.registerItem (h : s.Removable)
    (hunused : s.house.auctionItems[s.house.nextAuctionId]? = none)
    (o : RegisterOutcomes) (now : Time) (sellerId : UInt32) (item : Item)
    (price : UInt32) :
    (s.registerItem o now sellerId item price).2.Removable := by
  let listing := newListing s.house.nextAuctionId now sellerId item price
  by_cases hinsert : o.insert = .done
  · have hsaved : s.db.saveAuctionItem o.insert listing =
        (true, s.stored now sellerId item price) := by
      simp [Database.saveAuctionItem, hinsert, WriteOutcome.reports, stored,
        listing]
    obtain ⟨hsame, hadds⟩ := AuctionHouse.insertIntoIndices_adds
      ({ s.house with nextAuctionId := s.house.nextAuctionId + 1 }.setItem
        s.house.nextAuctionId listing)
      (s.stored now sellerId item price) o.seller
      (show listing.status = .active from rfl)
    rw [← AuctionHouse.registerItem_house hsaved] at hsame hadds
    have hnames := (Database.SameNames.of_users
      (registerItem_users s o now sellerId item price)).1
    have hitems : (s.registerItem o now sellerId item
        price).2.house.auctionItems =
        s.house.auctionItems.insert s.house.nextAuctionId listing := hsame.1
    intro k id hfiled
    rw [hitems]
    simp only [hnames]
    rcases (hadds k id).mp hfiled with hold | ⟨hk, rfl⟩
    · obtain ⟨item', hitem', hk⟩ := h k id (by cases k <;> exact hold)
      have hne : s.house.nextAuctionId ≠ id := by
        rintro rfl
        rw [hunused] at hitem'
        cases hitem'
      exact ⟨item', by simp [Std.ExtTreeMap.getElem?_insert, hne, hitem'], hk⟩
    · refine ⟨listing, by simp [listing, newListing], ?_⟩
      exact AuctionHouse.insertedKeys_subset_removalKeys
        (s.stored now sellerId item price) o.seller listing hk
  · rw [registerItem_of_ne_done s now sellerId item price hinsert]
    intro k id hfiled
    exact h k id (by cases k <;> exact hfiled)

variable {db : Database} {sellers : ℕ → ReadOutcome} {house house' : AuctionHouse}

/-- One turn of the constructor loop over a listing that is not yet kept. -/
theorem Removable.loadItem {seller : ReadOutcome} {item : AuctionItem}
    (h : Removable { house, db }) (hnew : house.auctionItems[item.id]? = none)
    (hload : house.loadItem db seller item = (.ok (), house')) :
    Removable { house := house', db } := by
  obtain ⟨hitems, -⟩ := AuctionHouse.loadItem_ok hload
  rcases hupdate : (house.setItem item.id item).updateIndices db seller item
    with ⟨result, filed⟩
  cases result with
  | error e => simp [AuctionHouse.loadItem, hupdate] at hload
  | ok u =>
      have hfiles : ∀ k i, house'.Files k i → filed.Files k i := by
        intro k i hfiled
        simp only [AuctionHouse.loadItem, hupdate, Prod.mk.injEq,
          true_and] at hload
        rw [← hload] at hfiled
        split at hfiled
        · cases k <;> exact hfiled
        · exact hfiled
      intro k i hfiled
      rw [show ({ house := house', db } : Server).house.auctionItems =
        house'.auctionItems from rfl, hitems, Std.ExtTreeMap.getElem?_insert]
      rcases AuctionHouse.files_updateIndices hupdate (hfiles k i hfiled) with
        hold | ⟨hk, rfl⟩
      · obtain ⟨item', hitem', hk⟩ := h k i (AuctionHouse.files_setItem.mp hold)
        have hne : item.id ≠ i := by
          rintro rfl
          rw [show ({ house, db } : Server).house.auctionItems[item.id]? = none
            from hnew] at hitem'
          cases hitem'
        exact ⟨item', by simpa [hne] using hitem', hk⟩
      · exact ⟨item, by simp, hk⟩

theorem Removable.loadItems {items : List AuctionItem}
    (hdistinct : (items.map AuctionItem.id).Nodup)
    (hload : AuctionHouse.loadItems db sellers items AuctionHouse.initial =
      .ok house) :
    Removable { house, db } := by
  -- Only the ids loaded so far are kept, so the next one is not among them.
  have hrun := @AuctionHouse.loadItems_keeps db [] AuctionHouse.initial house
    (fun loaded house => (loaded.map AuctionItem.id).Nodup →
      Removable { house, db } ∧
        ∀ id ∈ house.auctionItems, id ∈ loaded.map AuctionItem.id)
    items sellers (by
      intro loaded n item house house' h hitem hnodup
      rw [List.map_append, List.nodup_append] at hnodup
      obtain ⟨hremovable, hkept⟩ := h hnodup.1
      obtain ⟨hitems, -⟩ := AuctionHouse.loadItem_ok hitem
      have hnew : item.id ∉ house.auctionItems := fun hmem =>
        hnodup.2.2 _ (hkept _ hmem) item.id (by simp) rfl
      refine ⟨hremovable.loadItem (Std.ExtTreeMap.getElem?_eq_none hnew) hitem,
        ?_⟩
      intro id hid
      rw [hitems, Std.ExtTreeMap.mem_insert] at hid
      rw [List.map_append, List.mem_append]
      rcases hid with heq | hold
      · obtain rfl : item.id = id := by simpa using heq
        exact Or.inr (by simp)
      · exact Or.inl (hkept id hold)) (by
      intro _
      refine ⟨?_, by simp [AuctionHouse.initial]⟩
      intro k id hfiled
      exact (AuctionHouse.not_files_initial k id hfiled).elim) hload
  exact (hrun hdistinct).1

/-- A start over distinct ids files each listing under its own keys. -/
theorem restart_removable {order : List AuctionDocument}
    {failsAfter : Option ℕ}
    (hdistinct : (s.db.auctions.map format.key).Nodup)
    (h : s.restart order failsAfter sellers = some s') : s'.Removable := by
  obtain ⟨hperm, house, hhouse, rfl⟩ := restart_eq_some.mp h
  have horder : (order.map format.key).Nodup :=
    (hperm.map _).nodup_iff.mpr hdistinct
  have hids : ((Database.loadAllAuctionItems order failsAfter).map
      AuctionItem.id).Nodup := by
    cases failsAfter with
    | none =>
        rw [Database.loadAllAuctionItems, List.map_map]
        exact horder
    | some n =>
        rw [Database.loadAllAuctionItems, List.map_map]
        exact horder.sublist ((List.take_sublist n order).map _)
  exact Removable.loadItems hids hhouse

/-! ## Runs -/

/-- Open listings are stored, and what is filed can be removed. -/
structure Sweepable (s : Server) : Prop where
  stored : s.Stored
  removable : s.Removable

variable {order : List AuctionDocument} {failsAfter : Option ℕ}

theorem Starts.sweepable (hdistinct : (db.auctions.map AuctionDocument.id).Nodup)
    (hlast : SeesLastId db order failsAfter)
    (hstart : Starts db order failsAfter sellers s) : s.Sweepable := by
  have hstored := hstart.stored hdistinct hlast
  obtain ⟨-, hdb, -⟩ := restart_loaded False.elim hstart
  refine ⟨hstored, restart_removable ?_ hstart⟩
  have hkeys := hstored.orderly.tidy.distinct
  rw [show s.book.records = s.db.auctions from rfl, hdb] at hkeys
  exact hkeys

variable [StdSort]

theorem sweepable_preserves :
    machine.Preserves (fun e => e.before.IdsAdvance e.input) Sweepable := by
  rintro ⟨s, call, reply, s'⟩ hfires hids ⟨hstored, hremovable⟩
  have hwell : s.WellFiled := hstored.orderly.wellFiled
  refine ⟨stored_preserves _ hfires hids hstored, ?_⟩
  replace hremovable : s.Removable := hremovable
  change s'.Removable
  have hnames : ∀ u, s'.db.usernameOf u = s.db.usernameOf u :=
    (step_keepsLookups hfires hwell (Database.KeepsLookups.refl s.db)).names
  have hcloses : call.InProcess → call.isRegistration = false →
      Closes Set.univ s s' := by
    intro hprocess hother
    refine step_closes hfires hwell hprocess ?_ hother
    cases call <;> trivial
  cases call with
  | registerItem o now sellerId item price =>
      obtain ⟨-, rfl⟩ := fires_registerItem.mp hfires
      exact hremovable.registerItem hstored.next_unused o now sellerId item price
  | searchItems o criteria =>
      obtain ⟨result, hsearch, -⟩ := fires_searchItems.mp hfires
      obtain ⟨redis, rfl⟩ := hwell.searchItems_frame hsearch
      exact hremovable
  | purchaseItem o now auctionId buyerId =>
      refine hremovable.sheds (hcloses trivial rfl) hnames ?_
      obtain ⟨-, rfl⟩ := fires_purchaseItem.mp hfires
      exact fun k id => files_purchaseItem
  | cancelListing o auctionId sellerId =>
      refine hremovable.sheds (hcloses trivial rfl) hnames ?_
      obtain ⟨-, rfl⟩ := fires_cancelListing.mp hfires
      exact fun k id => files_cancelListing
  | processExpiredItems o now order =>
      refine hremovable.sheds (hcloses trivial rfl) hnames ?_
      obtain ⟨-, -, rfl⟩ := fires_processExpiredItems.mp hfires
      exact fun k id => files_processExpiredItems
  | restart order failsAfter sellers =>
      exact restart_removable hstored.orderly.tidy.distinct
        (fires_restart.mp hfires).1
  | expireKey key =>
      obtain ⟨-, rfl⟩ := fires_expireKey.mp hfires
      exact hremovable

end Server
end AuctionServer
