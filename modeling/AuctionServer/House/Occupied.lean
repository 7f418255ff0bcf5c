import AuctionServer.House.IndexInverse

/-!
# Buckets never stay empty

Every withdrawal drops the buckets it empties, and nothing else takes an id out
of a bucket.  So in every reachable state each key of an index has a listing
filed under it, whatever the store calls did.
-/

namespace AuctionServer

open AuctionHouse (NoEmptyBucket noEmptyBucket_initial)

namespace Server

variable {s s' : Server}

/-! ## The operations -/

theorem registerItem_noEmptyBucket (h : s.house.NoEmptyBucket)
    (o : RegisterOutcomes) (now : Time) (sellerId : UInt32) (item : Item)
    (price : UInt32) :
    (s.registerItem o now sellerId item price).2.house.NoEmptyBucket := by
  have hcounted : NoEmptyBucket
      { s.house with nextAuctionId := s.house.nextAuctionId + 1 } :=
    ⟨h.type, h.seller, h.price, h.keyword⟩
  by_cases hinsert : o.insert = .done
  · have hfiled : (s.filing o now sellerId item price).2.NoEmptyBucket :=
      (hcounted.setItem s.house.nextAuctionId _).updateIndices _ o.seller _
    rcases hfiling : s.filing o now sellerId item price with ⟨result, house⟩
    rw [hfiling] at hfiled
    rw [registerItem_of_filing s now sellerId item price hinsert hfiling]
    by_cases hok : result = .ok ()
    · rw [if_pos hok]
      exact hfiled.indexItemKeywords _ _
    · rw [if_neg hok]
      exact hfiled
  · rw [registerItem_of_ne_done s now sellerId item price hinsert]
    exact hcounted

theorem afterClose_noEmptyBucket (h : s.house.NoEmptyBucket)
    (o : ItemUpdateOutcomes) (seller : ReadOutcome) (id : UInt64)
    (new : AuctionItem) : (s.afterClose o seller id new).house.NoEmptyBucket := by
  have hset := h.setItem id new
  simp only [afterClose]
  split
  · exact hset.removeFromIndices _ seller new
  · exact hset

theorem purchaseItem_noEmptyBucket (h : s.house.NoEmptyBucket)
    (o : PurchaseOutcomes) (now : Time) (auctionId : UInt64) (buyerId : UInt32) :
    (s.purchaseItem o now auctionId buyerId).2.house.NoEmptyBucket :=
  @purchaseItem_keeps (fun s' => s'.house.NoEmptyBucket) s o now auctionId buyerId
    (fun _ hkept => hkept)
    (fun _ _ hpaid => afterClose_noEmptyBucket hpaid o.item o.seller auctionId _)
    h

theorem cancelListing_noEmptyBucket (h : s.house.NoEmptyBucket)
    (o : CancelOutcomes) (auctionId : UInt64) (sellerId : UInt32) :
    (s.cancelListing o auctionId sellerId).2.house.NoEmptyBucket :=
  @cancelListing_keeps (fun s' => s'.house.NoEmptyBucket) s o auctionId sellerId
    (fun _ _ hkept => afterClose_noEmptyBucket hkept o.item o.seller auctionId _)
    h

theorem processExpiredItems_noEmptyBucket (h : s.house.NoEmptyBucket)
    (o : SweepOutcomes) (now : Time) (order : List UInt64) :
    (s.processExpiredItems o now order).2.house.NoEmptyBucket :=
  @processExpiredItems_keeps now s (fun s' => s'.house.NoEmptyBucket) o
    (fun _ id item _ hkept => hkept.setItem id (expiredListing item))
    (fun s' id item hkept => hkept.removeFromIndices s'.db (o.seller id) item)
    order h

/-- What a start files it files in buckets that are not empty. -/
theorem loadItem_noEmptyBucket {db : Database} {seller : ReadOutcome}
    {item : AuctionItem} {house house' : AuctionHouse} (h : house.NoEmptyBucket)
    (hload : house.loadItem db seller item = (.ok (), house')) :
    house'.NoEmptyBucket := by
  have hfiled := (h.setItem item.id item).updateIndices db seller item
  rw [AuctionHouse.loadItem] at hload
  rcases hupdate : (house.setItem item.id item).updateIndices db seller item
    with ⟨result, filed⟩
  rw [hupdate] at hload hfiled
  cases result with
  | error e => cases hload
  | ok u =>
      obtain rfl := (Prod.mk.inj hload).2
      split
      · exact ⟨hfiled.type, hfiled.seller, hfiled.price, hfiled.keyword⟩
      · exact hfiled

theorem restart_noEmptyBucket {order : List AuctionDocument}
    {failsAfter : Option ℕ} {sellers : ℕ → ReadOutcome}
    (h : s.restart order failsAfter sellers = some s') :
    s'.house.NoEmptyBucket := by
  obtain ⟨-, house, hhouse, rfl⟩ := restart_eq_some.mp h
  exact @AuctionHouse.loadItems_keeps s.db [] AuctionHouse.initial house
    (fun _ house => house.NoEmptyBucket) _ sellers
    (fun _ _ _ _ _ => loadItem_noEmptyBucket) noEmptyBucket_initial hhouse

/-! ## Runs -/

/-- The buckets of a well-filed house. -/
def Occupied (s : Server) : Prop :=
  s.WellFiled ∧ s.house.NoEmptyBucket

theorem Starts.occupied {db : Database} {order : List AuctionDocument}
    {failsAfter : Option ℕ} {sellers : ℕ → ReadOutcome}
    (h : Starts db order failsAfter sellers s) : s.Occupied :=
  ⟨h.wellFiled, restart_noEmptyBucket h⟩

variable [StdSort]

theorem occupied_preserves : machine.Preserves (fun _ => True) Occupied := by
  rintro ⟨s, call, reply, s'⟩ hfires - ⟨hwell, h⟩
  refine ⟨wellFiled_preserves _ hfires trivial hwell, ?_⟩
  replace h : s.house.NoEmptyBucket := h
  change s'.house.NoEmptyBucket
  cases call with
  | registerItem o now sellerId item price =>
      obtain ⟨-, rfl⟩ := fires_registerItem.mp hfires
      exact registerItem_noEmptyBucket h o now sellerId item price
  | searchItems o criteria =>
      obtain ⟨result, hsearch, -⟩ := fires_searchItems.mp hfires
      obtain ⟨redis, heq⟩ := WellFiled.searchItems_frame hwell hsearch
      rw [heq]
      exact h
  | purchaseItem o now auctionId buyerId =>
      obtain ⟨-, rfl⟩ := fires_purchaseItem.mp hfires
      exact purchaseItem_noEmptyBucket h o now auctionId buyerId
  | cancelListing o auctionId sellerId =>
      obtain ⟨-, rfl⟩ := fires_cancelListing.mp hfires
      exact cancelListing_noEmptyBucket h o auctionId sellerId
  | processExpiredItems o now order =>
      obtain ⟨-, -, rfl⟩ := fires_processExpiredItems.mp hfires
      exact processExpiredItems_noEmptyBucket h o now order
  | restart order failsAfter sellers =>
      exact restart_noEmptyBucket (fires_restart.mp hfires).1
  | expireKey key =>
      obtain ⟨-, rfl⟩ := fires_expireKey.mp hfires
      exact h

theorem Reachable.occupied (h : s.Reachable) : s.Occupied := by
  obtain ⟨db, order, failsAfter, sellers, calls, es, hserve⟩ := h
  obtain ⟨s₀, hstart, hrun⟩ := serve_eq_some.mp hserve
  exact (Machine.run_invariant occupied_preserves hrun (fun _ _ => trivial)
    hstart.occupied).1

end Server
end AuctionServer
