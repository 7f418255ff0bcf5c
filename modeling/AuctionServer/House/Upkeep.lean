import AuctionServer.House.Rebuild
import AuctionServer.House.Representation
import AuctionServer.House.Users

/-!
# The indices are kept up

Without store errors every call keeps the indices exact: a registration files
its listing, a purchase, a cancellation and a sweep withdraw what they close,
and everything else leaves listings, indices and usernames alone.  A run keeps
track of the ids this process registered, since only their keywords are filed.
-/

namespace AuctionServer

open AuctionHouse (SameListings)

namespace Server

variable {s : Server} {registered pending : Set UInt64}

/-! ## Purchase and cancellation -/

theorem Represented.purchaseItem (h : s.Represented registered ∅)
    (hagreeing : s.Agreeing) {o : PurchaseOutcomes} (ho : o.Answered)
    (now : Time) (auctionId : UInt64) (buyerId : UInt32) :
    (s.purchaseItem o now auctionId buyerId).2.Represented registered ∅ := by
  refine @purchaseItem_keeps (fun s' => s'.Represented registered ∅) s o now
    auctionId buyerId ?_ ?_ h
  · intro listing h
    have hkeeps : s.db.KeepsLookups (settle s.db o listing buyerId).2 :=
      settle_keeps (fun _ u b h => h.setBalance u b) o listing buyerId
        (Database.KeepsLookups.refl s.db)
    exact h.touch rfl hkeeps.names hkeeps.readable
  · rintro listing ⟨hitem, hactive, -⟩ hpaid
    let paid : Server := { s with db := (settle s.db o listing buyerId).2 }
    obtain ⟨hframe, hnames⟩ := settle_frame s.db o listing buyerId
    have hmove : Move ⟨False, True, True⟩ s paid :=
      .touch rfl (by simp only [paid]; rw [hframe]) hnames
    have hagreeing' : paid.Agreeing :=
      hagreeing.moves trivial trivial (Relation.ReflTransGen.single hmove)
    rw [ho.2.2.2.2]
    exact hpaid.afterClose hagreeing' ho.2.2.2.1 hitem hactive
      (by simp [soldListing]) ⟨rfl, rfl, rfl, rfl, rfl⟩

theorem Represented.cancelListing (h : s.Represented registered ∅)
    (hagreeing : s.Agreeing) {o : CancelOutcomes} (ho : o.item.Answered)
    (hseller : o.seller = .answered) (auctionId : UInt64) (sellerId : UInt32) :
    (s.cancelListing o auctionId sellerId).2.Represented registered ∅ := by
  refine @cancelListing_keeps (fun s' => s'.Represented registered ∅) s o
    auctionId sellerId ?_ h
  rintro listing ⟨hitem, hactive, -⟩ h
  rw [hseller]
  exact h.afterClose hagreeing ho hitem hactive (by simp [cancelledListing])
    ⟨rfl, rfl, rfl, rfl, rfl⟩

/-! ## The sweep -/

/-- The first loop ends, and the ids it reports are those still to be
withdrawn. -/
theorem Represented.expireItems (h : s.Represented registered pending)
    (hagreeing : s.Agreeing) {o : UInt64 → ItemUpdateOutcomes}
    (ho : ∀ id, (o id).Answered) (now : Time) (ids : List UInt64) :
    ∃ expired s', Server.expireItems o now ids s = (.ok expired, s') ∧
      s'.Agreeing ∧ s'.Represented registered (pending ∪ {id | id ∈ expired}) := by
  induction ids generalizing s pending with
  | nil => exact ⟨[], s, rfl, hagreeing, by simpa using h⟩
  | cons id ids ih =>
      by_cases hdue : ∃ item, s.Due now id item
      · obtain ⟨item, hdue⟩ := hdue
        have hclosed : (expiredListing item).status ≠ .active := by
          simp [expiredListing]
        have hsucceeds := hagreeing.itemUpdateSucceeds (ho id).1 (ho id).2
          hdue.1 hdue.active hclosed rfl
        have hmove : Move ⟨False, True, True⟩ s (s.afterExpiry (o id) id item) :=
          expiry_move hdue fun _ id => (ho id).1
        have hafter := hagreeing.moves trivial trivial
          (Relation.ReflTransGen.single hmove)
        have hsame : SameKeys item (expiredListing item) :=
          ⟨rfl, rfl, rfl, rfl, rfl⟩
        have hpending : (s.afterExpiry (o id) id item).Represented registered
            (insert id pending) :=
          h.close hdue.1 hdue.active hsame rfl
            (Database.updateAuctionItem_users s.db (o id) _)
        obtain ⟨expired, s', heq, hagreeing', hrepresented⟩ :=
          ih hpending hafter
        refine ⟨id :: expired, s', ?_, hagreeing', ?_⟩
        · rw [expireItems_cons_of_due ids hdue,
            Database.updateAuctionItem_fst_eq_true.mpr hsucceeds, heq]
          rfl
        · convert hrepresented using 1
          ext i
          simp only [Set.mem_union, Set.mem_insert_iff, Set.mem_ofPred_eq,
            List.mem_cons]
          tauto
      · rw [expireItems_cons_of_not_due ids fun item hitem => hdue ⟨item, hitem⟩]
        exact ih h hagreeing

/-- The second loop ends, and none of the ids it is given is pending any
longer. -/
theorem Represented.removeExpired {seller : UInt64 → ReadOutcome}
    (hseller : ∀ id, seller id = .answered) (ids : List UInt64)
    (h : s.Represented registered pending) (hwell : s.WellFiled)
    (hclosed : ∀ id ∈ ids, s.ClosedAt id)
    (hreadable : ∀ id ∈ ids, ∀ item, s.house.auctionItems[id]? = some item →
      s.db.Readable item.sellerId) :
    ∃ house, Server.removeExpired seller s.db ids s.house = (.ok (), house) ∧
      Represented { s with house } registered (pending \ {id | id ∈ ids}) := by
  induction ids generalizing s pending with
  | nil => exact ⟨s.house, rfl, by simpa using h⟩
  | cons id ids ih =>
      have hsplit : pending \ {i | i ∈ id :: ids} =
          (pending \ {id}) \ {i | i ∈ ids} := by
        ext i
        simp [and_assoc, and_left_comm]
      have hclosed' : ∀ i ∈ ids, s.ClosedAt i := fun i hi =>
        hclosed i (List.mem_cons_of_mem _ hi)
      have hreadable' : ∀ i ∈ ids, ∀ item, s.house.auctionItems[i]? = some item →
          s.db.Readable item.sellerId := fun i hi =>
        hreadable i (List.mem_cons_of_mem _ hi)
      rw [hsplit]
      cases hitem : s.house.auctionItems[id]? with
      | none =>
          have hunfiled : ∀ k i, s.house.Files k i ↔ s.house.Files k i ∧ i ≠ id := by
            intro k i
            refine ⟨fun hk => ⟨hk, ?_⟩, And.left⟩
            rintro rfl
            have hknown := hwell.known k i hk
            rw [Std.ExtTreeMap.mem_iff_isSome_getElem?, hitem] at hknown
            cases hknown
          have hsettled : Represented { s with house := s.house } registered
              (pending \ {id}) :=
            h.settle_pending (hclosed id (by simp)) ⟨rfl, rfl⟩ h.noEmpty hunfiled
          obtain ⟨house, heq, hrepresented⟩ := ih hsettled hwell hclosed' hreadable'
          exact ⟨house, by simpa [Server.removeExpired, hitem] using heq,
            hrepresented⟩
      | some item =>
          obtain ⟨house, hremove, hsame, hsettled⟩ := h.withdraw hwell hitem
            (hclosed id (by simp) item hitem)
            (hreadable id (by simp) item hitem)
          have hwell' : WellFiled { s with house } := by
            have hmove : Move ⟨False, False, False⟩ s { s with
                house := (s.house.removeFromIndices s.db .answered item).2 } :=
              withdraw_move .answered hitem (hclosed id (by simp) item hitem)
            rw [hremove] at hmove
            exact hwell.move hmove
          have hclosed'' : ∀ i ∈ ids, Server.ClosedAt { s with house } i := by
            intro i hi item' hitem'
            exact hclosed' i hi item' (by rw [← hsame.1]; exact hitem')
          obtain ⟨house', heq, hrepresented⟩ := ih hsettled hwell' hclosed'' (by
            intro i hi item' hitem'
            exact hreadable' i hi item' (by rw [← hsame.1]; exact hitem'))
          refine ⟨house', ?_, hrepresented⟩
          simp only [Server.removeExpired, hitem, hseller id, hremove]
          exact heq

/-- A sweep over an agreeing server ends without an exception and leaves the
indices exact. -/
theorem Represented.processExpiredItems (h : s.Represented registered ∅)
    (hagreeing : s.Agreeing) {o : SweepOutcomes}
    (ho : ∀ id, (o.item id).Answered ∧ o.seller id = .answered) (now : Time)
    (order : List UInt64) :
    (s.processExpiredItems o now order).1 = .ok () ∧
      (s.processExpiredItems o now order).2.Represented registered ∅ := by
  obtain ⟨expired, s', heq, hagreeing', hrepresented⟩ :=
    h.expireItems hagreeing (fun id => (ho id).1) now order
  obtain ⟨-, -, hreports⟩ := @expireItems_moves o.item now ⟨False, False, False⟩
    False.elim order s
  rw [heq] at hreports
  obtain ⟨house, hremove, hsettled⟩ := hrepresented.removeExpired
    (fun id => (ho id).2) expired hagreeing'.orderly.wellFiled
    (hreports expired rfl) fun id hid item hitem =>
      hrepresented.readable id item hitem (Or.inr (Or.inr hid))
  rw [Set.empty_union, Set.sdiff_self] at hsettled
  have hafter : s.processExpiredItems o now order =
      (.ok (), { s' with house }) := by
    simp [Server.processExpiredItems, heq, hremove]
  rw [hafter]
  exact ⟨rfl, hsettled⟩

/-! ## Calls -/

/-- An answered call of the running house keeps the indices exact; it adds the
id it reports to those registered here. -/
theorem Represented.step [StdSort] {s' : Server} {call : Call} {reply : Reply}
    (hfires : machine.Fires ⟨s, call, reply, s'⟩)
    (hanswers : call.StoreAnswers) (hprocess : call.InProcess)
    (hreadable : call.SellerReadable s.db) (hagreeing : s.Agreeing)
    (h : s.Represented registered ∅) :
    s'.Represented (registered ∪ {id | reply = .registered (.ok id)}) ∅ := by
  have hother : (∀ id, reply ≠ .registered (.ok id)) →
      registered ∪ {id | reply = .registered (.ok id)} = registered := by
    intro hreply
    ext id
    simp [hreply id]
  have hwell := hagreeing.orderly.wellFiled
  cases call with
  | registerItem o now sellerId item price =>
      obtain ⟨rfl, rfl⟩ := fires_registerItem.mp hfires
      obtain ⟨hreply, hregistered⟩ := h.register hwell hagreeing.next_unused
        hanswers.1 hanswers.2 now item price hreadable
      convert hregistered using 1
      ext id
      simp [hreply, eq_comm]
  | searchItems o criteria =>
      obtain ⟨result, hsearch, rfl⟩ := fires_searchItems.mp hfires
      obtain ⟨redis, rfl⟩ := hwell.searchItems_frame hsearch
      rw [hother (by simp)]
      exact h.touch rfl (fun _ => rfl) fun _ hu => hu
  | purchaseItem o now auctionId buyerId =>
      obtain ⟨rfl, rfl⟩ := fires_purchaseItem.mp hfires
      rw [hother (by simp)]
      exact h.purchaseItem hagreeing hanswers now auctionId buyerId
  | cancelListing o auctionId sellerId =>
      obtain ⟨rfl, rfl⟩ := fires_cancelListing.mp hfires
      rw [hother (by simp)]
      exact h.cancelListing hagreeing hanswers.1 hanswers.2 auctionId sellerId
  | processExpiredItems o now order =>
      obtain ⟨-, rfl, rfl⟩ := fires_processExpiredItems.mp hfires
      rw [hother (by simp)]
      exact (h.processExpiredItems hagreeing hanswers now order).2
  | restart order failsAfter sellers => exact hprocess.elim
  | expireKey key =>
      obtain ⟨rfl, rfl⟩ := fires_expireKey.mp hfires
      rw [hother (by simp)]
      exact h.touch rfl (fun _ => rfl) fun _ hu => hu

end Server
end AuctionServer
