import AuctionServer.House.UnsetFields

/-!
# What the operations do to alike servers

Registrations, purchases, cancellations and searches on two servers that are
alike up to the listings of a set answer the same, and leave them alike.  A
registration adds its listing to the set; a search must not ask for a type once
there is a listing in it.
-/

namespace AuctionServer

namespace Server

variable {ids : Set UInt64} {s t : Server} {a b : AuctionItem}

/-! ## Settling -/

/-- A balance update looks at the users only. -/
theorem updateUserBalance_of_users {db db' : Database} (h : db'.users = db.users)
    (o : BalanceOutcomes) (userId : UInt32) (amount : Int32) :
    (db'.updateUserBalance o userId amount).1 =
        (db.updateUserBalance o userId amount).1 ∧
      (db'.updateUserBalance o userId amount).2.users =
        (db.updateUserBalance o userId amount).2.users := by
  simp only [Database.updateUserBalance, Database.findUser, h]
  split
  · exact ⟨rfl, h⟩
  · split
    · exact ⟨rfl, h⟩
    · split
      · exact ⟨rfl, h⟩
      · split
        · exact ⟨rfl, h⟩
        · refine ⟨rfl, ?_⟩
          simp only [WriteOutcome.store]
          split
          · simp only [Database.setBalance, h]
          · exact h

/-- A purchase settles over the users alone. -/
theorem settle_of_users {db db' : Database} (h : db'.users = db.users)
    (o : PurchaseOutcomes) {listing listing' : AuctionItem}
    (hseller : listing'.sellerId = listing.sellerId)
    (hprice : listing'.price = listing.price) (buyerId : UInt32) :
    (settle db' o listing' buyerId).1 = (settle db o listing buyerId).1 ∧
      (settle db' o listing' buyerId).2.users =
        (settle db o listing buyerId).2.users := by
  simp only [settle, Database.getUserInfo_of_users h, hseller, hprice]
  obtain ⟨hcredit, husers⟩ := updateUserBalance_of_users h o.credit
    listing.sellerId listing.price.toInt32
  rcases hpaid : db.updateUserBalance o.credit listing.sellerId
    listing.price.toInt32 with ⟨paid, db₁⟩
  rcases hpaid' : db'.updateUserBalance o.credit listing.sellerId
    listing.price.toInt32 with ⟨paid', db₁'⟩
  rw [hpaid, hpaid'] at hcredit husers
  obtain rfl : paid' = paid := hcredit
  split
  · exact ⟨rfl, h⟩
  · exact ⟨rfl, h⟩
  · split
    · exact ⟨rfl, h⟩
    · cases paid' with
      | false => exact ⟨rfl, husers⟩
      | true => exact updateUserBalance_of_users husers o.debit buyerId _

/-- The same users put into both. -/
theorem Alike.withUsers (h : s.Alike ids t) (users : List UserDocument) :
    Alike ids { s with db := { s.db with users } }
      { t with db := { t.db with users } } :=
  ⟨⟨h.wellFiled.keyed, h.wellFiled.known⟩, h.items, h.fixed, h.next,
    h.sellerIndex, h.priceIndex, h.keywordIndex, h.types, h.typed, h.auctions, rfl,
    h.redisAvailable, h.redis,
    ⟨h.own.stored, h.own.filed, h.own.occupied⟩,
    ⟨h.own'.stored, h.own'.filed, h.own'.occupied⟩⟩

/-- Nothing but the users changes when a purchase is settled. -/
theorem Alike.settle (h : s.Alike ids t) (o : PurchaseOutcomes)
    (hab : a.blank = b.blank) (buyerId : UInt32) :
    (settle s.db o a buyerId).1 = (settle t.db o b buyerId).1 ∧
      Alike ids { s with db := (settle s.db o a buyerId).2 }
        { t with db := (settle t.db o b buyerId).2 } := by
  obtain ⟨-, -, hseller, hprice, -⟩ := AuctionItem.fields_of_blank hab
  obtain ⟨hresult, husers⟩ :=
    settle_of_users h.users.symm o hseller.symm hprice.symm buyerId
  refine ⟨hresult.symm, ?_⟩
  rw [(settle_frame s.db o a buyerId).1, (settle_frame t.db o b buyerId).1, husers]
  exact h.withUsers _

/-! ## Purchases and cancellations -/

variable {auctionId : UInt64}

theorem Alike.handOver (h : s.Alike ids t) (o : PurchaseOutcomes)
    (transaction : Transaction) (now : Time)
    (ha : s.house.auctionItems[auctionId]? = some a)
    (hb : t.house.auctionItems[auctionId]? = some b)
    (hab : a.Alike ids auctionId b) (hactive : a.status = .active)
    (buyerId : UInt32) :
    (s.handOver o transaction now auctionId a buyerId).1 =
        (t.handOver o transaction now auctionId b buyerId).1 ∧
      Alike ids (s.handOver o transaction now auctionId a buyerId).2
        (t.handOver o transaction now auctionId b buyerId).2 := by
  have hf := touches_soldListing buyerId now
  have hclosed : (soldListing a buyerId now).status ≠ .active := by
    simp [soldListing]
  obtain ⟨hafter, htrue⟩ := handOver_eq s o transaction now auctionId a buyerId
  obtain ⟨hafter', htrue'⟩ := handOver_eq t o transaction now auctionId b buyerId
  obtain ⟨hupdate, hupdated⟩ := h.update hf ha hb hab hactive hclosed o.item
  have husers : (t.db.updateAuctionItem o.item (soldListing b buyerId now)).2.users =
      (s.db.updateAuctionItem o.item (soldListing a buyerId now)).2.users :=
    hupdated.users.symm
  rw [← Database.updateAuctionItem_fst_eq_true] at htrue
  rw [← Database.updateAuctionItem_fst_eq_true, ← hupdate,
    Database.getUserInfo_of_users husers,
    ← (AuctionItem.fields_of_blank hab.blank).2.2.1] at htrue'
  constructor
  · rw [Bool.eq_iff_iff, htrue, htrue']
  · rw [hafter, hafter']
    exact h.afterClose hf ha hb hab hactive hclosed o.item o.seller

theorem Alike.purchaseItem (h : s.Alike ids t) (o : PurchaseOutcomes)
    (now : Time) (auctionId : UInt64) (buyerId : UInt32) :
    (s.purchaseItem o now auctionId buyerId).1 =
        (t.purchaseItem o now auctionId buyerId).1 ∧
      Alike ids (s.purchaseItem o now auctionId buyerId).2
        (t.purchaseItem o now auctionId buyerId).2 := by
  by_cases hoffer : ∃ listing, s.OnOffer auctionId buyerId listing
  · obtain ⟨a, hoffer⟩ := hoffer
    obtain ⟨b, hb, hab⟩ := h.listing hoffer.1
    obtain ⟨-, hstatus, hseller, -⟩ := AuctionItem.fields_of_blank hab.blank
    have hoffer' : t.OnOffer auctionId buyerId b :=
      ⟨hb, hstatus ▸ hoffer.2.1, hseller ▸ hoffer.2.2⟩
    obtain ⟨hsettled, hpaid⟩ := h.settle o hab.blank buyerId
    rw [purchaseItem_of_onOffer o now hoffer, purchaseItem_of_onOffer o now hoffer',
      ← hsettled]
    split
    · exact hpaid.handOver o _ now hoffer.1 hb hab hoffer.2.1 buyerId
    · exact ⟨rfl, hpaid⟩
  · have hnone : ∀ listing, ¬ t.OnOffer auctionId buyerId listing := by
      rintro b ⟨hb, hactive, hother⟩
      obtain ⟨a, ha, hab⟩ := h.listing_of_second hb
      obtain ⟨-, hstatus, hseller, -⟩ := AuctionItem.fields_of_blank hab.blank
      exact hoffer ⟨a, ha, hstatus ▸ hactive, hseller ▸ hother⟩
    rw [purchaseItem_of_not_onOffer o now fun listing hl => hoffer ⟨listing, hl⟩,
      purchaseItem_of_not_onOffer o now hnone]
    exact ⟨rfl, h⟩

/-- The result of a cancellation is that of its update and of the removal. -/
theorem cancelListing_fst {sellerId : UInt32} (o : CancelOutcomes)
    (h : s.Cancellable auctionId sellerId a) :
    (s.cancelListing o auctionId sellerId).1 =
      match (s.db.updateAuctionItem o.item (cancelledListing a)).1 with
      | .error e => .error e
      | .ok false => .ok false
      | .ok true =>
          ((s.house.setItem auctionId (cancelledListing a)).removeFromIndices
            (s.db.updateAuctionItem o.item (cancelledListing a)).2 o.seller
            (cancelledListing a)).1.map fun _ => true := by
  obtain ⟨hitem, hactive, rfl⟩ := h
  rcases hupdate : s.db.updateAuctionItem o.item (cancelledListing a) with
    ⟨result, db⟩
  simp only [cancelledListing] at hupdate
  cases result with
  | error e => simp [cancelListing, hitem, hactive, hupdate]
  | ok modified =>
      cases modified with
      | false => simp [cancelListing, hitem, hactive, hupdate]
      | true =>
          rcases hremove : (s.house.setItem auctionId
            (cancelledListing a)).removeFromIndices db o.seller
            (cancelledListing a) with ⟨result, house⟩
          simp only [cancelledListing] at hremove
          cases result <;>
            simp [cancelListing, hitem, hactive, hupdate, hremove, Except.map]

theorem Alike.cancelListing (h : s.Alike ids t) (o : CancelOutcomes)
    (auctionId : UInt64) (sellerId : UInt32) :
    (s.cancelListing o auctionId sellerId).1 =
        (t.cancelListing o auctionId sellerId).1 ∧
      Alike ids (s.cancelListing o auctionId sellerId).2
        (t.cancelListing o auctionId sellerId).2 := by
  by_cases hcancellable : ∃ listing, s.Cancellable auctionId sellerId listing
  · obtain ⟨a, hcancellable⟩ := hcancellable
    have ⟨ha, hactive, hseller⟩ := hcancellable
    obtain ⟨b, hb, hab⟩ := h.listing ha
    obtain ⟨-, hstatus, hsellers, -⟩ := AuctionItem.fields_of_blank hab.blank
    have hcancellable' : t.Cancellable auctionId sellerId b :=
      ⟨hb, hstatus ▸ hactive, hsellers ▸ hseller⟩
    have hf := touches_cancelledListing
    have hclosed : (cancelledListing a).status ≠ .active := by
      simp [cancelledListing]
    obtain ⟨hupdate, hupdated⟩ := h.update hf ha hb hab hactive hclosed o.item
    obtain ⟨hremove, -⟩ := hupdated.removeFromIndices o.seller
      (setItem_self _ _ _) (setItem_self _ _ _) (alike_of_touches hf hab) hclosed
    constructor
    · rw [cancelListing_fst o hcancellable, cancelListing_fst o hcancellable',
        ← hupdate]
      split
      · rfl
      · rfl
      · exact congrArg _ hremove
    · rw [(cancelListing_of_cancellable o hcancellable).1,
        (cancelListing_of_cancellable o hcancellable').1]
      exact h.afterClose hf ha hb hab hactive hclosed o.item o.seller
  · have hnone : ∀ listing, ¬ t.Cancellable auctionId sellerId listing := by
      rintro b ⟨hb, hactive, hown⟩
      obtain ⟨a, ha, hab⟩ := h.listing_of_second hb
      obtain ⟨-, hstatus, hseller, -⟩ := AuctionItem.fields_of_blank hab.blank
      exact hcancellable ⟨a, ha, hstatus ▸ hactive, hseller ▸ hown⟩
    rw [cancelListing_of_not_cancellable o fun listing hl =>
        hcancellable ⟨listing, hl⟩,
      cancelListing_of_not_cancellable o hnone]
    exact ⟨rfl, h⟩

/-! ## Registrations -/

/-- Neither a listing nor a document has the id the next listing gets. -/
structure NextIdUnused (s : Server) : Prop where
  items : s.house.nextAuctionId ∉ s.house.auctionItems
  auctions : ∀ doc ∈ s.db.auctions, doc.id.toUInt64 ≠ s.house.nextAuctionId

instance (s : Server) : Decidable s.NextIdUnused :=
  decidable_of_iff
    (s.house.nextAuctionId ∉ s.house.auctionItems ∧
      ∀ doc ∈ s.db.auctions, doc.id.toUInt64 ≠ s.house.nextAuctionId)
    ⟨fun h => ⟨h.1, h.2⟩, fun h => ⟨h.items, h.auctions⟩⟩

/-- Servers are alike up to more listings. -/
theorem Alike.widen (h : s.Alike ids t) {id : UInt64}
    (hnew : id ∉ s.house.auctionItems) : Alike (insert id ids) s t := by
  have hunfiled : ∀ type, ¬ s.house.Files (.type type) id := fun type hfiles =>
    hnew (h.wellFiled.known _ _ hfiles)
  have hunfiled' : ∀ type, ¬ t.house.Files (.type type) id := by
    intro type hfiles
    by_cases hid : id ∈ ids
    · obtain ⟨type', hfiles'⟩ := (h.typed id hid).mpr ⟨type, hfiles⟩
      exact hunfiled type' hfiles'
    · exact hunfiled type ((h.types id hid type).mpr hfiles)
  have hnone : s.house.auctionItems[id]? = none :=
    Std.ExtTreeMap.getElem?_eq_none hnew
  have hnone' : t.house.auctionItems[id]? = none := by
    cases hb : t.house.auctionItems[id]? with
    | none => rfl
    | some b =>
        obtain ⟨a, ha, -⟩ := h.listing_of_second hb
        simp [hnone] at ha
  refine ⟨h.wellFiled, h.items, ?_, h.next, h.sellerIndex, h.priceIndex,
    h.keywordIndex, ?_, ?_, h.auctions.imp ?_, h.users, h.redisAvailable, h.redis,
    ⟨?_, ?_, h.own.occupied⟩, ⟨?_, ?_, h.own'.occupied⟩⟩
  · exact fun id' hid' => h.fixed id' fun hmem => hid' (Set.mem_insert_of_mem _ hmem)
  · exact fun id' hid' => h.types id' fun hmem => hid' (Set.mem_insert_of_mem _ hmem)
  · rintro id' (rfl | hid')
    · exact iff_of_false (fun ⟨type, hs⟩ => hunfiled type hs)
        fun ⟨type, ht⟩ => hunfiled' type ht
    · exact h.typed id' hid'
  · exact fun d e hde => ⟨hde.blank, fun hd =>
      hde.fixed fun hmem => hd (Set.mem_insert_of_mem _ hmem)⟩
  · rintro id' (rfl | hid') listing hlisting
    · simp [hnone] at hlisting
    · exact h.own.stored id' hid' listing hlisting
  · rintro id' (rfl | hid') listing hlisting
    · simp [hnone] at hlisting
    · exact h.own.filed id' hid' listing hlisting
  · rintro id' (rfl | hid') listing hlisting
    · simp [hnone'] at hlisting
    · exact h.own'.stored id' hid' listing hlisting
  · rintro id' (rfl | hid') listing hlisting
    · simp [hnone'] at hlisting
    · exact h.own'.filed id' hid' listing hlisting

/-- The second server is well filed as well. -/
theorem Alike.wellFiled_second (h : s.Alike ids t) : t.WellFiled := by
  have hknown : ∀ {id : UInt64}, id ∈ s.house.auctionItems →
      id ∈ t.house.auctionItems := by
    intro id hid
    obtain ⟨a, ha⟩ := exists_item_of_mem hid
    obtain ⟨b, hb, -⟩ := h.listing ha
    exact Std.ExtTreeMap.mem_iff_isSome_getElem?.mpr (Option.isSome_of_mem hb)
  constructor
  · intro id b hb
    obtain ⟨a, ha, hab⟩ := h.listing_of_second hb
    rw [← (AuctionItem.fields_of_blank hab.blank).1]
    exact h.wellFiled.keyed id a ha
  · intro k id hfiles
    apply hknown
    cases k with
    | type type =>
        by_cases hid : id ∈ ids
        · obtain ⟨type', hfiles'⟩ := (h.typed id hid).mpr ⟨type, hfiles⟩
          exact h.wellFiled.known _ _ hfiles'
        · exact h.wellFiled.known _ _ ((h.types id hid type).mpr hfiles)
    | seller name =>
        exact h.wellFiled.known (.seller name) id (by
          rw [AuctionHouse.Files, h.sellerIndex]
          exact hfiles)
    | price price =>
        exact h.wellFiled.known (.price price) id (by
          rw [AuctionHouse.Files, h.priceIndex]
          exact hfiles)
    | keyword word =>
        exact h.wellFiled.known (.keyword word) id (by
          rw [AuctionHouse.Files, h.keywordIndex]
          exact hfiles)

theorem Alike.nextIdUnused (h : s.Alike ids t) (hunused : s.NextIdUnused) :
    t.NextIdUnused := by
  constructor
  · intro hmem
    obtain ⟨b, hb⟩ := exists_item_of_mem hmem
    obtain ⟨a, ha, -⟩ := h.listing_of_second hb
    rw [← h.next] at ha
    exact hunused.items
      (Std.ExtTreeMap.mem_iff_isSome_getElem?.mpr (Option.isSome_of_mem ha))
  · intro e he
    have hids : s.db.auctions.map AuctionDocument.id =
        t.db.auctions.map AuctionDocument.id := by
      rw [← List.forall₂_eq_eq_eq]
      exact List.rel_map (fun d e hde => AuctionDocument.id_of_blank hde.blank)
        h.auctions
    obtain ⟨d, hd, hid⟩ := List.mem_map.mp (hids ▸ List.mem_map_of_mem he)
    rw [← hid, ← h.next]
    exact hunused.auctions d hd

theorem updateIndices_itemTypeIndex (house : AuctionHouse) (db : Database)
    (seller : ReadOutcome) {item : AuctionItem} (hactive : item.status = .active) :
    (house.updateIndices db seller item).2.itemTypeIndex =
      house.itemTypeIndex.add item.item.type item.id := by
  simp only [AuctionHouse.updateIndices, hactive, ne_eq, not_true, if_false]
  cases db.getUserInfo seller item.sellerId with
  | error e => rfl
  | ok info => cases info <;> rfl

section Registration

variable {o : RegisterOutcomes} (now : Time) (sellerId : UInt32) {item item' : Item}
  (price : UInt32)

/-- A registration files its listing under its type before anything else. -/
theorem registerItem_itemTypeIndex (s : Server) (item : Item)
    (hinsert : o.insert = .done) :
    (s.registerItem o now sellerId item price).2.house.itemTypeIndex =
      s.house.itemTypeIndex.add item.type s.house.nextAuctionId := by
  have htypes : (s.filing o now sellerId item price).2.itemTypeIndex =
      s.house.itemTypeIndex.add item.type s.house.nextAuctionId :=
    updateIndices_itemTypeIndex (s.accepted now sellerId item price)
      (s.stored now sellerId item price) o.seller rfl
  rcases hfiling : s.filing o now sellerId item price with ⟨result, house⟩
  rw [hfiling] at htypes
  rw [registerItem_of_filing s now sellerId item price hinsert hfiling]
  by_cases hok : result = .ok ()
  · rw [if_pos hok]
    exact htypes
  · rw [if_neg hok]
    exact htypes

/-- The same listing but for its unset fields. -/
theorem newListing_blank (id : UInt64) (hitem : item.blank = item'.blank) :
    (newListing id now sellerId item price).blank =
      (newListing id now sellerId item' price).blank :=
  congrArg (fun i => newListing id now sellerId i price) hitem

/-- Registered on both, the items get the same id and enter the same buckets,
but for those of the type index. -/
theorem Alike.registerItem_lookups (h : s.Alike ids t)
    (hitem : item.blank = item'.blank) (hinsert : o.insert = .done) :
    (s.registerItem o now sellerId item price).1 =
        (t.registerItem o now sellerId item' price).1 ∧
      (s.registerItem o now sellerId item price).2.house.SameLookups
        (t.registerItem o now sellerId item' price).2.house := by
  have hlisting :
      (newListing s.house.nextAuctionId now sellerId item price).blank =
        (newListing t.house.nextAuctionId now sellerId item' price).blank := by
    rw [← h.next]
    exact newListing_blank now sellerId price s.house.nextAuctionId hitem
  have haccepted : (s.accepted now sellerId item price).SameLookups
      (t.accepted now sellerId item' price) :=
    ⟨h.sellerIndex, h.priceIndex, h.keywordIndex⟩
  have husers : (t.stored now sellerId item' price).users =
      (s.stored now sellerId item price).users := h.users.symm
  have hsame := haccepted.updateIndices husers hlisting o.seller
  rcases hfiling : s.filing o now sellerId item price with ⟨result, house⟩
  rcases hfiling' : t.filing o now sellerId item' price with ⟨result', house'⟩
  rw [← filing, ← filing, hfiling, hfiling'] at hsame
  obtain ⟨rfl, hlookups⟩ := hsame
  rw [registerItem_of_filing s now sellerId item price hinsert hfiling,
    registerItem_of_filing t now sellerId item' price hinsert hfiling', h.next]
  refine ⟨rfl, ?_⟩
  by_cases hok : result = .ok ()
  · rw [if_pos hok, if_pos hok]
    have hname : item.name = item'.name := by
      have hblank := congrArg Item.name hitem
      exact hblank
    have hkeywords : house.keywordIndex = house'.keywordIndex :=
      hlookups.keywordIndex
    refine ⟨hlookups.sellerIndex, hlookups.priceIndex, ?_⟩
    simp only [AuctionHouse.indexItemKeywords, AuctionHouse.keywordsOf, hname,
      hkeywords]
  · rw [if_neg hok, if_neg hok]
    exact hlookups

/-- What a registration does to the listings and documents. -/
theorem registerItem_stores (s : Server) (item : Item) (o : RegisterOutcomes) :
    (s.registerItem o now sellerId item price).2.house.nextAuctionId =
        s.house.nextAuctionId + 1 ∧
      (s.registerItem o now sellerId item price).2.house.auctionItems =
        (if o.insert = .done then
          s.house.auctionItems.insert s.house.nextAuctionId
            (newListing s.house.nextAuctionId now sellerId item price)
        else s.house.auctionItems) ∧
      (s.registerItem o now sellerId item price).2.db =
        if o.insert.applied then s.stored now sellerId item price else s.db := by
  by_cases hinsert : o.insert = .done
  · obtain ⟨keys, house, heq, hnext, hitems, -⟩ :=
      registerItem_of_done s now sellerId item price hinsert
    rw [heq, if_pos hinsert, hinsert]
    exact ⟨hnext, hitems, rfl⟩
  · rw [registerItem_of_ne_done s now sellerId item price hinsert, if_neg hinsert]
    refine ⟨rfl, rfl, ?_⟩
    cases o.insert.applied <;> rfl

/-- A registration touches neither the users nor the cache. -/
theorem registerItem_frame (s : Server) (item : Item) (o : RegisterOutcomes) :
    (s.registerItem o now sellerId item price).2.db.users = s.db.users ∧
      (s.registerItem o now sellerId item price).2.db.redisAvailable =
        s.db.redisAvailable ∧
      (s.registerItem o now sellerId item price).2.db.redis = s.db.redis := by
  rw [(registerItem_stores now sellerId price s item o).2.2]
  split
  · exact ⟨rfl, rfl, rfl⟩
  · exact ⟨rfl, rfl, rfl⟩

/-- A document after a registration is an old one, or the new one. -/
theorem mem_auctions_registerItem {doc : AuctionDocument}
    (h : doc ∈ (s.registerItem o now sellerId item price).2.db.auctions) :
    doc ∈ s.db.auctions ∨ doc = itemToBson
      (newListing s.house.nextAuctionId now sellerId item price) := by
  rw [(registerItem_stores now sellerId price s item o).2.2] at h
  split at h
  · exact (List.mem_append.mp h).imp_right List.mem_singleton.mp
  · exact Or.inl h

/-- So is a listing. -/
theorem item_registerItem {id : UInt64} {listing : AuctionItem}
    (h : (s.registerItem o now sellerId item price).2.house.auctionItems[id]? =
      some listing) :
    s.house.auctionItems[id]? = some listing ∨
      (o.insert = .done ∧ id = s.house.nextAuctionId ∧
        listing = newListing s.house.nextAuctionId now sellerId item price) := by
  rw [(registerItem_stores now sellerId price s item o).2.1] at h
  split at h
  · next hinsert =>
      rw [Std.ExtTreeMap.getElem?_insert] at h
      split at h
      · next heq =>
          refine Or.inr ⟨hinsert, ?_, (Option.some.inj h).symm⟩
          exact (Std.compare_eq_iff_eq.mp heq).symm
      · exact Or.inl h
  · exact Or.inl h

/-- A type under which an id is filed after a registration. -/
theorem files_type_registerItem {type : UInt32} {id : UInt64} :
    (s.registerItem o now sellerId item price).2.house.Files (.type type) id ↔
      s.house.Files (.type type) id ∨
        (o.insert = .done ∧ type = item.type ∧ id = s.house.nextAuctionId) := by
  by_cases hinsert : o.insert = .done
  · simp only [AuctionHouse.Files,
      registerItem_itemTypeIndex now sellerId price s item hinsert,
      Buckets.holds_add, hinsert, true_and, eq_comm]
    exact or_comm
  · rw [registerItem_of_ne_done s now sellerId item price hinsert]
    simp [AuctionHouse.Files, hinsert]

/-- After a registration the listing is stored and filed with its own fields. -/
theorem OwnFields.registerItem (h : OwnFields ids s) (hwell : s.WellFiled)
    (hunused : s.NextIdUnused) (item : Item) (o : RegisterOutcomes) :
    OwnFields ids (s.registerItem o now sellerId item price).2 := by
  have hnew : ∀ listing, s.house.auctionItems[s.house.nextAuctionId]? ≠
      some listing := fun listing hlisting => hunused.items
    (Std.ExtTreeMap.mem_iff_isSome_getElem?.mpr (Option.isSome_of_mem hlisting))
  refine ⟨?_, ?_, registerItem_noEmptyBucket h.occupied o now sellerId item price⟩
  · intro id hid listing hlisting doc hdoc hdocid
    rcases mem_auctions_registerItem now sellerId price hdoc with hdoc | rfl
    · rcases item_registerItem now sellerId price hlisting with
        hold | ⟨-, rfl, -⟩
      · exact h.stored id hid listing hold doc hdoc hdocid
      · exact (hunused.auctions doc hdoc hdocid).elim
    · have hid' : s.house.nextAuctionId = id := by
        simpa [itemToBson, newListing] using hdocid
      subst hid'
      rcases item_registerItem now sellerId price hlisting with
        hold | ⟨-, -, rfl⟩
      · exact (hnew listing hold).elim
      · rfl
  · intro id hid listing hlisting type hfiles
    rcases (files_type_registerItem now sellerId price).mp hfiles with
      hfiles | ⟨-, rfl, rfl⟩
    · rcases item_registerItem now sellerId price hlisting with
        hold | ⟨-, rfl, -⟩
      · exact h.filed id hid listing hold type hfiles
      · exact (hunused.items (hwell.known (.type type) _ hfiles)).elim
    · rcases item_registerItem now sellerId price hlisting with
        hold | ⟨-, -, rfl⟩
      · exact (hnew listing hold).elim
      · rfl

/-- Both register the item, as a listing of the set. -/
theorem Alike.registerItem (h : s.Alike ids t) (hunused : s.NextIdUnused)
    (hitem : item.blank = item'.blank) (o : RegisterOutcomes) :
    (s.registerItem o now sellerId item price).1 =
        (t.registerItem o now sellerId item' price).1 ∧
      Alike (insert s.house.nextAuctionId ids)
        (s.registerItem o now sellerId item price).2
        (t.registerItem o now sellerId item' price).2 := by
  replace h := h.widen hunused.items
  generalize hids : insert s.house.nextAuctionId ids = ids' at h ⊢
  have hmem : s.house.nextAuctionId ∈ ids' := hids ▸ Set.mem_insert _ _
  have hlisting :
      (newListing s.house.nextAuctionId now sellerId item price).blank =
        (newListing t.house.nextAuctionId now sellerId item' price).blank := by
    rw [← h.next]
    exact newListing_blank now sellerId price s.house.nextAuctionId hitem
  obtain ⟨hnext, hitems, hdb⟩ := registerItem_stores now sellerId price s item o
  obtain ⟨hnext', hitems', hdb'⟩ := registerItem_stores now sellerId price t item' o
  have hmove : Move ⟨False, False, False⟩ s
      (s.registerItem o now sellerId item price).2 :=
    registerItem_move now sellerId item price False.elim False.elim False.elim
  have hframe := registerItem_frame now sellerId price s item o
  have hframe' := registerItem_frame now sellerId price t item' o
  have hown := h.own.registerItem now sellerId price h.wellFiled hunused item o
  have hown' := h.own'.registerItem now sellerId price h.wellFiled_second
    (h.nextIdUnused hunused) item' o
  obtain ⟨hresult, hlookups⟩ : (s.registerItem o now sellerId item price).1 =
        (t.registerItem o now sellerId item' price).1 ∧
      (s.registerItem o now sellerId item price).2.house.SameLookups
        (t.registerItem o now sellerId item' price).2.house := by
    by_cases hinsert : o.insert = .done
    · exact h.registerItem_lookups now sellerId price hitem hinsert
    · rw [registerItem_of_ne_done s now sellerId item price hinsert,
        registerItem_of_ne_done t now sellerId item' price hinsert]
      exact ⟨rfl, h.sellerIndex, h.priceIndex, h.keywordIndex⟩
  refine ⟨hresult, h.wellFiled.move hmove, ?_, ?_, ?_, hlookups.sellerIndex,
    hlookups.priceIndex, hlookups.keywordIndex, ?_, ?_, ?_, ?_, ?_, ?_, hown, hown'⟩
  · intro id
    rw [hitems, hitems', h.next]
    split
    · rw [Std.ExtTreeMap.getElem?_insert, Std.ExtTreeMap.getElem?_insert]
      split
      · rw [h.next] at hlisting
        exact congrArg some hlisting
      · exact h.items id
    · exact h.items id
  · intro id hid
    have hne : s.house.nextAuctionId ≠ id := fun heq => hid (heq ▸ hmem)
    rw [hitems, hitems', ← h.next]
    split
    · rw [Std.ExtTreeMap.getElem?_insert, Std.ExtTreeMap.getElem?_insert,
        if_neg (by simpa using hne), if_neg (by simpa using hne)]
      exact h.fixed id hid
    · exact h.fixed id hid
  · rw [hnext, hnext', h.next]
  · intro id hid type
    have hne : id ≠ s.house.nextAuctionId := fun heq => hid (heq ▸ hmem)
    rw [files_type_registerItem, files_type_registerItem, ← h.next]
    simp only [hne, and_false, or_false]
    exact h.types id hid type
  · intro id hid
    simp only [files_type_registerItem, ← h.next]
    rcases eq_or_ne id s.house.nextAuctionId with rfl | hne
    · by_cases hinsert : o.insert = .done
      · exact iff_of_true ⟨item.type, Or.inr ⟨hinsert, rfl, rfl⟩⟩
          ⟨item'.type, Or.inr ⟨hinsert, rfl, rfl⟩⟩
      · simp only [hinsert, false_and, or_false]
        exact h.typed _ hid
    · simp only [hne, and_false, or_false]
      exact h.typed id hid
  · rw [hdb, hdb']
    split
    · refine List.rel_append h.auctions (List.Forall₂.cons ⟨?_, ?_⟩ .nil)
      · rw [itemToBson_blank, itemToBson_blank, hlisting]
      · intro hnot
        refine (hnot ?_).elim
        simpa [itemToBson, newListing] using hmem
    · exact h.auctions
  · rw [hframe.1, hframe'.1, h.users]
  · rw [hframe.2.1, hframe'.2.1, h.redisAvailable]
  · rw [hframe.2.2, hframe'.2.2]
    exact h.redis

end Registration

end Server
end AuctionServer
