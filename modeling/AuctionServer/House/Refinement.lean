import AuctionServer.House.Abstraction
import AuctionServer.House.Recovery

/-!
# The server refines the marketplace

As long as the store answers, every call is a step of the marketplace: it grants
what it reports to grant, and refuses only what cannot be granted.  The
marketplace a run ends in is then the one its replies lead to, and the stored
documents describe the same marketplace.
-/

namespace AuctionServer

theorem Call.StoreAnswers.lookupsAnswered {call : Call} (h : call.StoreAnswers) :
    call.LookupsAnswered := by
  cases call with
  | registerItem o now sellerId item price => exact h.2
  | searchItems o criteria => exact h.2.1
  | purchaseItem o now auctionId buyerId => exact h.2.2.2.2
  | cancelListing o auctionId sellerId => exact h.2
  | processExpiredItems o now order => exact fun id => (h id).2
  | restart order failsAfter sellers => exact h.2
  | expireKey key => trivial

theorem Call.StoreAnswers.faultless {call : Call} (h : call.StoreAnswers) :
    call.Faultless := by
  cases call with
  | purchaseItem o now auctionId buyerId =>
      obtain ⟨hbuyer, hcredit, hdebit, ⟨hupdate, hdel⟩, -⟩ := h
      exact ⟨hbuyer, hcredit, hdebit, hupdate, hdel⟩
  | _ => exact h.writesDone

namespace Server

/-- What is done on the marketplace when the event happens to the server.  A
search that is answered from the cache asks the marketplace nothing. -/
def act (db : Database) (e : ServerEvent) :
    Marketplace.Act UInt64 UInt32 Item Time :=
  match e.input, e.output with
  | .registerItem _ now sellerId item price, .registered (.ok id) =>
      .list id item.ownerId (termsOf (newListing id now sellerId item price))
  | .purchaseItem _ now auctionId buyerId, .purchased granted =>
      .buy auctionId buyerId now granted
  | .cancelListing _ auctionId sellerId, .cancelled (.ok granted) =>
      .cancel auctionId sellerId granted
  | .processExpiredItems _ now _, .swept (.ok ()) => .sweep now
  | .searchItems o criteria, .found (.ok results) =>
      if (e.before.cachedResults o criteria).isSome then .rest
      else .ask (questionOf db criteria) (results.map shownTerms)
  | _, _ => .rest

/-- No balance passes the greatest `int32`. -/
abbrev balanceLimit : ℕ := 2 ^ 31 - 1

/-- The state of a house that runs without store errors over users with the
names in `db`. -/
structure InMarket (db : Database) (s : Server) : Prop where
  balanced : s.Balanced
  indexed : s.Indexed
  sweepable : s.Sweepable
  noEmpty : s.house.NoEmptyBucket
  lookups : db.KeepsLookups s.db

variable {s s' : Server} {db : Database}

theorem InMarket.agreeing (h : s.InMarket db) : s.Agreeing :=
  h.balanced.agreeing

/-! ## Registrations -/

/-- An answered registration lists its offer under an unused id. -/
theorem InMarket.registerItem_step (h : s.InMarket db) {o : RegisterOutcomes}
    (hinsert : o.insert = .done) (hseller : o.seller = .answered) (now : Time)
    (sellerId : UInt32) (item : Item) (price : UInt32) :
    (s.registerItem o now sellerId item price).1 =
        .ok s.house.nextAuctionId ∧
      Marketplace.Step balanceLimit s.marketplace
        (.list s.house.nextAuctionId item.ownerId
          (termsOf (newListing s.house.nextAuctionId now sellerId item price)))
        (s.registerItem o now sellerId item price).2.marketplace := by
  obtain ⟨keys, house, hafter, -, hitems, -, hall⟩ :=
    registerItem_of_done s now sellerId item price hinsert
  refine ⟨(hall hseller h.indexed.readable).1, ?_⟩
  have hfresh : s.marketplace.offers s.house.nextAuctionId = none := by
    have hunused := h.agreeing.next_unused
    rw [Std.ExtTreeMap.mem_iff_isSome_getElem?, Bool.not_eq_true,
      Option.isSome_eq_false_iff, Option.isNone_iff_eq_none] at hunused
    simp [marketplace, hunused]
  have hput : (s.registerItem o now sellerId item price).2.marketplace =
      s.marketplace.put s.house.nextAuctionId
        ⟨termsOf (newListing s.house.nextAuctionId now sellerId item price),
          item.ownerId, .opened⟩ := by
    rw [hafter]
    apply Marketplace.Market.ext
    · exact marketplace_put hitems
    · exact Database.wealth_of_users rfl
  rw [hput]
  exact .list hfresh

/-! ## Purchases -/

/-- On the marketplace an offer can be bought exactly if the house would sell the
listing. -/
theorem InMarket.buyable_iff (h : s.InMarket db) {id : UInt64} {buyerId : UInt32}
    {terms : Marketplace.Terms UInt32 Item Time} :
    s.marketplace.Buyable balanceLimit id buyerId terms ↔
      ∃ listing, (s.OnOffer id buyerId listing ∧
        Affordable s.db listing buyerId ∧ listing.price ≠ 0) ∧
        termsOf listing = terms := by
  have hwealth : ∀ (u : UInt32) (n : ℕ), s.marketplace.balance u = some n ↔
      ∃ doc, s.db.findUser u = some doc ∧ Database.worth doc = n := fun u n =>
    Database.wealth_eq_some_iff h.balanced.solvent
  constructor
  · rintro ⟨hopen, hother, hcosts, ⟨b, hb, hcovered⟩, ⟨a, ha, hroom⟩⟩
    obtain ⟨listing, hlisting, hactive, rfl⟩ := marketplace_open.mp hopen
    obtain ⟨buyer, hbuyer, hworth⟩ := (hwealth buyerId b).mp hb
    obtain ⟨seller, hseller, hworth'⟩ := (hwealth listing.sellerId a).mp ha
    simp only [termsOf] at hcosts hcovered hroom hother
    refine ⟨listing, ⟨⟨hlisting, hactive, hother⟩,
      ⟨seller, buyer, hseller, hbuyer, ?_, ?_⟩, ?_⟩, rfl⟩
    · omega
    · simp only [balanceLimit] at hroom
      omega
    · rintro hzero
      rw [hzero] at hcosts
      simp at hcosts
  · rintro ⟨listing, ⟨⟨hlisting, hactive, hother⟩,
      ⟨seller, buyer, hseller, hbuyer, hcovers, hroom⟩, hprice⟩, rfl⟩
    obtain ⟨b, hb, hb₀⟩ := h.balanced.solvent.balance hbuyer
    obtain ⟨a, ha, ha₀⟩ := h.balanced.solvent.balance hseller
    have hworth : Database.worth buyer = b.toInt := by
      simp [Database.worth, hb]
    have hworth' : Database.worth seller = a.toInt := by
      simp [Database.worth, ha]
    refine ⟨marketplace_open.mpr ⟨listing, hlisting, hactive, rfl⟩, hother, ?_,
      ⟨b.toInt.toNat, (hwealth buyerId _).mpr ⟨buyer, hbuyer, by omega⟩, ?_⟩,
      ⟨a.toInt.toNat, (hwealth listing.sellerId _).mpr
        ⟨seller, hseller, by omega⟩, ?_⟩⟩
    · exact UInt32.pos_iff_ne_zero.mpr hprice
    · simp only [termsOf]
      omega
    · simp only [termsOf, balanceLimit]
      omega

/-- A sale moves the price on the marketplace. -/
theorem wealth_of_pays {db db' : Database} {sale : Sale}
    (hpays : Pays db db' sale) (hsolvent : db.Solvent) {b : ℕ}
    (hother : sale.seller ≠ sale.buyer) (hb : db.wealth sale.buyer = some b)
    (hcovered : sale.price.toNat ≤ b) (u : UInt32) :
    db'.wealth u = (db.wealth u).map fun w =>
      if u = sale.seller then w + sale.price.toNat
      else if u = sale.buyer then w - sale.price.toNat else w := by
  have hworth : ∀ {v n}, db.wealth v = some n → db.balanceOf v = n := by
    intro v n hv
    obtain ⟨doc, hdoc, hdocworth⟩ :=
      (Database.wealth_eq_some_iff hsolvent).mp hv
    simp [Database.balanceOf, hdoc, hdocworth]
  rw [Database.wealth_eq_of_balanceOf, hpays.ids, hpays.balances]
  have hbefore := @Database.wealth_eq_of_balanceOf db u
  by_cases hmem : u.toInt32 ∈ db.users.map UserDocument.id
  · rw [if_pos hmem] at hbefore ⊢
    rw [hbefore, Option.map_some, Option.some.injEq]
    have hu := hworth hbefore
    simp only [Sale.gain]
    by_cases hseller : u = sale.seller
    · subst u
      rw [if_pos rfl, if_neg hother.symm, if_pos rfl]
      omega
    · rw [if_neg (Ne.symm hseller), if_neg hseller]
      by_cases hbuyer : u = sale.buyer
      · subst u
        have hvalue := hworth hb
        rw [if_pos rfl, if_pos rfl]
        omega
      · rw [if_neg (Ne.symm hbuyer), if_neg hbuyer]
        omega
  · rw [if_neg hmem] at hbefore ⊢
    rw [hbefore]
    rfl

/-- An answered purchase is granted exactly when the offer can be bought, and
then sells it. -/
theorem InMarket.purchaseItem_step (h : s.InMarket db) {o : PurchaseOutcomes}
    (ho : o.Answered) (now : Time) (id : UInt64) (buyerId : UInt32) :
    Marketplace.Step balanceLimit s.marketplace
      (.buy id buyerId now (s.purchaseItem o now id buyerId).1)
      (s.purchaseItem o now id buyerId).2.marketplace := by
  have hstored : s.ListingsStored := fun _ _ hitem =>
    h.agreeing.findAuction hitem
  have hgranted := @purchaseItem_answered s o id buyerId
    h.indexed.wellFiled hstored h.balanced.solvent.nonneg ho now
  have hcall : Call.StoreAnswers (.purchaseItem o now id buyerId) := ho
  rcases purchaseItem_faultless h.balanced hcall.faultless with
    hsame | ⟨listing, hlisting, htrue, hpays⟩
  · rw [hsame]
    refine .refused fun terms hbuyable => ?_
    obtain ⟨listing, hsold, -⟩ := h.buyable_iff.mp hbuyable
    have htrue := hgranted.mpr ⟨listing, hsold⟩
    rw [hsame] at htrue
    cases htrue
  · obtain ⟨listing', hsold⟩ := hgranted.mp htrue
    obtain rfl : listing' = listing :=
      Option.some.inj (hsold.1.1.symm.trans hlisting)
    have hbuyable : s.marketplace.Buyable balanceLimit id buyerId
        (termsOf listing') := h.buyable_iff.mpr ⟨listing', hsold, rfl⟩
    obtain ⟨listing'', hoffer, -, -, hafter⟩ := purchaseItem_eq_true htrue
    obtain rfl : listing'' = listing' :=
      Option.some.inj (hoffer.1.symm.trans hlisting)
    obtain ⟨b, hb, hcovered⟩ := hbuyable.covered
    rw [htrue]
    have hmarket : (s.purchaseItem o now id buyerId).2.marketplace =
        (s.marketplace.pay buyerId listing''.sellerId listing''.price.toNat).put id
          ⟨termsOf listing'', buyerId, .sold buyerId now⟩ := by
      apply Marketplace.Market.ext
      · refine @marketplace_put s id _ (soldListing listing'' buyerId now) ?_
        rw [hafter, afterClose_items]
        rfl
      · funext u
        exact wealth_of_pays hpays h.balanced.solvent hoffer.2.2 hb hcovered u
    rw [hmarket]
    exact .sold hbuyable

/-! ## Cancellations -/

/-- An answered cancellation is granted exactly to the seller of an open
offer. -/
theorem InMarket.cancelListing_step (h : s.InMarket db) {o : CancelOutcomes}
    (hitem : o.item.Answered) (hseller : o.seller = .answered) (id : UInt64)
    (sellerId : UInt32) :
    ∃ granted, (s.cancelListing o id sellerId).1 = .ok granted ∧
      Marketplace.Step balanceLimit s.marketplace (.cancel id sellerId granted)
        (s.cancelListing o id sellerId).2.marketplace := by
  by_cases hcancellable : ∃ listing, s.Cancellable id sellerId listing
  · obtain ⟨listing, hcancellable⟩ := hcancellable
    obtain ⟨hafter, htrue⟩ := cancelListing_of_cancellable o hcancellable
    obtain ⟨hlisting, hactive, rfl⟩ := hcancellable
    have hsucceeds : s.db.ItemUpdateSucceeds o.item (cancelledListing listing) :=
      h.agreeing.itemUpdateSucceeds hitem.1 hitem.2 hlisting hactive
        (by simp [cancelledListing]) rfl
    obtain ⟨info, hinfo, -⟩ :=
      Database.getUserInfo_of_readable h.indexed.readable listing.sellerId
    have hread : (s.db.updateAuctionItem o.item
        (cancelledListing listing)).2.getUserInfo o.seller listing.sellerId =
          .ok info := by
      rw [hseller, Database.getUserInfo_of_users
        (Database.updateAuctionItem_users s.db o.item _)]
      exact hinfo
    refine ⟨true, htrue.mpr ⟨hsucceeds, info, hread⟩, ?_⟩
    have hmarket : (s.cancelListing o id listing.sellerId).2.marketplace =
        s.marketplace.put id { offerOf listing with standing := .cancelled } := by
      rw [hafter]
      apply Marketplace.Market.ext
      · refine @marketplace_put s id _ (cancelledListing listing) ?_
        rw [afterClose_items]
        rfl
      · exact Database.wealth_of_users (afterClose_users s o.item o.seller id _)
    have hoffer : s.marketplace.offers id = some (offerOf listing) := by
      simp [marketplace, hlisting]
    rw [hmarket]
    exact .cancelled hoffer (standingOf_eq_opened.mpr hactive)
  · have hnone : ∀ listing, ¬ s.Cancellable id sellerId listing :=
      fun listing hl => hcancellable ⟨listing, hl⟩
    rw [cancelListing_of_not_cancellable o hnone]
    refine ⟨false, rfl, .kept fun terms hopen hown => ?_⟩
    obtain ⟨listing, hlisting, hactive, rfl⟩ := marketplace_open.mp hopen
    exact hnone listing ⟨hlisting, hactive, hown⟩

/-! ## Sweeps -/

/-- The offer of a swept listing. -/
theorem offerOf_sweptListing (now : Time) (listing : AuctionItem) :
    offerOf (sweptListing now listing) = (offerOf listing).swept now := by
  unfold sweptListing isExpired Marketplace.Offer.swept
  cases hstatus : listing.status with
  | active =>
      by_cases hdue : listing.expirationTime < now
      · simp [offerOf, standingOf, hstatus, hdue, termsOf, expiredListing]
      · simp [offerOf, standingOf, hstatus, hdue, termsOf]
  | sold => simp [offerOf, standingOf, hstatus]
  | expired => simp [offerOf, standingOf, hstatus]
  | cancelled => simp [offerOf, standingOf, hstatus]

/-- An answered sweep expires what has run out. -/
theorem InMarket.processExpiredItems_step (h : s.InMarket db)
    {o : SweepOutcomes} (ho : ∀ id, (o.item id).Answered ∧ o.seller id = .answered)
    (now : Time) {order : List UInt64}
    (horder : order.isPerm s.house.auctionItems.keys = true) :
    (s.processExpiredItems o now order).1 = .ok () ∧
      Marketplace.Step balanceLimit s.marketplace (.sweep now)
        (s.processExpiredItems o now order).2.marketplace := by
  have hanswered : s.SweepAnswered o now := by
    intro id item _
    obtain ⟨info, hinfo, -⟩ :=
      Database.getUserInfo_of_readable h.indexed.readable item.sellerId
    exact ⟨(ho id).1, (ho id).2, info, hinfo⟩
  obtain ⟨hok, hswept⟩ :=
    h.sweepable.processExpiredItems h.noEmpty hanswered horder
  refine ⟨hok, ?_⟩
  have hmarket : (s.processExpiredItems o now order).2.marketplace =
      s.marketplace.sweep now := by
    apply Marketplace.Market.ext
    · funext id
      simp only [marketplace, Marketplace.Market.sweep, hswept.items id,
        Option.map_map]
      congr 1
      funext listing
      exact offerOf_sweptListing now listing
    · exact Database.wealth_of_users hswept.users
  rw [hmarket]
  exact .swept

/-! ## Searches -/

theorem mayPrecede_of_inOrder {criteria : SearchCriteria} {a b : AuctionItem}
    (h : InOrder criteria a b) :
    MayPrecede criteria (shownTerms a) (shownTerms b) := by
  unfold InOrder at h
  unfold MayPrecede shownTerms termsOf
  split
  · next hprice =>
      rw [if_pos hprice] at h
      simpa only [UInt32.le_iff_toNat_le] using h
  · next hprice =>
      rw [if_neg hprice] at h
      exact h

theorem fits_iff_wanted {db' : Database} {criteria : SearchCriteria}
    {listing : AuctionItem} (hnames : ∀ u, db'.usernameOf u = db.usernameOf u) :
    fits db' criteria listing = true ↔
      listing.status = .active ∧ Wanted db criteria (termsOf listing) := by
  have hmax : 0 < criteria.maxPrice ↔ criteria.maxPrice ≠ 0 :=
    UInt32.pos_iff_ne_zero
  simp only [fits, Bool.and_eq_true, withinBounds_iff, Bool.or_eq_true,
    decide_eq_true_eq, nameMatches, containsText, List.isEmpty_iff, hnames, hmax]
  constructor
  · rintro ⟨⟨⟨hactive, hlo, hhi, htype⟩, hseller⟩, hname⟩
    refine ⟨hactive, UInt32.le_iff_toNat_le.mp hlo,
      fun h => UInt32.le_iff_toNat_le.mp (hhi h), htype,
      fun h => hseller.resolve_left h, fun h => hname.resolve_left h⟩
  · rintro ⟨hactive, hlo, hhi, htype, hseller, hname⟩
    refine ⟨⟨⟨hactive, UInt32.le_iff_toNat_le.mpr hlo,
      fun h => UInt32.le_iff_toNat_le.mpr (hhi h), htype⟩, ?_⟩, ?_⟩
    · by_cases h : criteria.sellerName = []
      · exact Or.inl h
      · exact Or.inr (hseller h)
    · by_cases h : criteria.keyword = []
      · exact Or.inl h
      · exact Or.inr (hname h)

/-- The page of a search is a window of its results. -/
theorem applyPagination_eq_window (criteria : SearchCriteria)
    (results : List AuctionItem) :
    (applyPagination results criteria.page criteria.itemsPerPage).map
        shownTerms =
      (questionOf db criteria).window (results.map shownTerms) := by
  by_cases hzero : criteria.itemsPerPage = 0
  · simp [applyPagination, Marketplace.Query.window, questionOf, hzero]
  · have hone : 1 ≤ criteria.itemsPerPage := by
      have hpos := UInt32.pos_iff_ne_zero.mpr hzero
      rw [UInt32.le_iff_toNat_le]
      exact UInt32.lt_iff_toNat_lt.mp hpos
    rw [applyPagination_eq results hone]
    simp only [Marketplace.Query.window, questionOf, if_neg hzero, List.map_take,
      List.map_drop]

/-- Without a keyword, the candidates of a search that ends include every
listing that meets the criteria, even if the price bounds are the wrong way
round. -/
theorem Indexed.candidates_cover (h : s.Indexed) {criteria : SearchCriteria}
    {ids : IdSet} (hids : s.house.candidates criteria = some ids)
    (hkeyword : criteria.keyword = []) {id : UInt64} {listing : AuctionItem}
    (hlisting : s.house.auctionItems[id]? = some listing)
    (hfits : fits s.db criteria listing = true) : id ∈ ids := by
  have hprices : criteria.PricesOrdered := by
    obtain ⟨-, hlo, hhi, -⟩ := withinBounds_iff.mp (fits_withinBounds hfits)
    by_cases hzero : criteria.maxPrice = 0
    · exact Or.inl hzero
    · exact Or.inr (UInt32.le_trans hlo (hhi (UInt32.pos_iff_ne_zero.mpr hzero)))
  obtain ⟨ids', hids', hmem⟩ := h.candidates_complete (Or.inl hkeyword) hprices
  obtain rfl := Option.some.inj (hids.symm.trans hids')
  exact hmem id listing hlisting hfits

/-- An answered search that is not served from the cache answers its
question. -/
theorem InMarket.searchItems_step [StdSort] (h : s.InMarket db)
    {o : SearchOutcomes} (hsellers : ∀ id, o.sellers id = .answered)
    {criteria : SearchCriteria} {result : Except StoreException (List AuctionItem)}
    (hsearch : s.searchItems o criteria = some (result, s'))
    (hmiss : s.cachedResults o criteria = none) :
    ∃ results, result = .ok results ∧
      s.marketplace.Answers (questionOf db criteria) (results.map shownTerms) := by
  rcases h.indexed.wellFiled.searchItems_cases hsearch with
    ⟨results, hcached, -, -⟩ | ⟨-, huncached, -⟩
  · rw [hmiss] at hcached
    cases hcached
  cases hids : s.house.candidates criteria with
  | none => simp [searchUncached, selectItems, hids] at huncached
  | some ids =>
      have hselect := h.indexed.selectItems_eq hsellers hids
      simp only [searchUncached, hselect, Option.some.injEq, Prod.mk.injEq,
        and_true] at huncached
      have hpairwise := @WellFiled.selected_ids s criteria ids h.indexed.wellFiled
      obtain ⟨hperm, hsorted⟩ := sortResults_spec criteria hpairwise
      have hfits : ∀ listing, fits s.db criteria listing = true ↔
          listing.status = .active ∧ Wanted db criteria (termsOf listing) :=
        fun listing => fits_iff_wanted h.lookups.names
      refine ⟨_, huncached.symm, _, applyPagination_eq_window criteria _, ?_, ?_,
        ?_, ?_⟩
      · rw [List.map_map]
        have hids' : (s.selected criteria ids).Pairwise fun a b => a.id ≠ b.id :=
          hpairwise.imp fun hab heq => UInt64.ne_of_lt hab heq
        have hnodup : ((s.selected criteria ids).map AuctionItem.id).Nodup := by
          rw [List.Nodup, List.pairwise_map]
          exact hids'
        exact (hperm.map AuctionItem.id).nodup_iff.mpr hnodup
      · rw [List.pairwise_map]
        exact hsorted.imp mayPrecede_of_inOrder
      · intro x hx
        obtain ⟨listing, hmem, rfl⟩ := List.mem_map.mp hx
        obtain ⟨id, -, hlisting, hfit⟩ := mem_selected.mp (hperm.mem_iff.mp hmem)
        obtain ⟨hactive, hwanted⟩ := (hfits listing).mp hfit
        have hid := h.indexed.wellFiled.keyed id listing hlisting
        refine ⟨marketplace_open.mpr ⟨listing, ?_, hactive, rfl⟩, hwanted⟩
        simp only [shownTerms, hid]
        exact hlisting
      · intro hkeyword id terms hopen hwanted
        obtain ⟨listing, hlisting, hactive, rfl⟩ := marketplace_open.mp hopen
        have hfit := (hfits listing).mpr ⟨hactive, hwanted⟩
        have hid := h.indexed.wellFiled.keyed id listing hlisting
        have hmem : listing ∈ s.selected criteria ids := mem_selected.mpr
          ⟨id, h.indexed.candidates_cover hids hkeyword hlisting hfit, hlisting,
            hfit⟩
        rw [← hid]
        exact List.mem_map_of_mem (hperm.mem_iff.mpr hmem)

/-! ## Restarts -/

/-- A restart over the whole collection gives back the same marketplace. -/
theorem InMarket.restart_marketplace (h : s.InMarket db)
    {order : List AuctionDocument} {sellers : ℕ → ReadOutcome}
    (hsellers : ∀ n, sellers n = .answered)
    (hrestart : s.restart order none sellers = some s') :
    s'.marketplace = s.marketplace := by
  obtain ⟨hperm, hdb, -⟩ := restart_loaded False.elim hrestart
  obtain ⟨-, house, hhouse, rfl⟩ := restart_eq_some.mp hrestart
  have hrebuilt := AuctionHouse.rebuilt_of_construct hsellers hhouse
  have hdistinct : (s.db.auctions.map AuctionDocument.id).Nodup := by
    have hkeys := h.agreeing.orderly.tidy.distinct
    apply List.Nodup.of_map Int64.toUInt64
    rw [List.map_map]
    exact hkeys
  apply Marketplace.Market.ext
  · funext id
    have hsame : house.auctionItems[id]? = s.house.auctionItems[id]? := by
      apply Option.ext
      intro item
      rw [hrebuilt.getElem?_eq_some_iff (nodup_loaded hperm hdistinct)]
      exact h.agreeing.mem_loaded hperm
    simp [marketplace, hsame]
  · rfl

/-! ## Runs -/

variable [StdSort]

/-- An answered event is the step of the marketplace it is seen as. -/
theorem step_refines {e : ServerEvent} (hfires : machine.Fires e)
    (hanswers : e.input.StoreAnswers) (h : e.before.InMarket db) :
    Marketplace.Step balanceLimit e.before.marketplace (act db e)
      e.after.marketplace := by
  obtain ⟨s, call, reply, s'⟩ := e
  replace h : s.InMarket db := h
  cases call with
  | registerItem o now sellerId item price =>
      obtain ⟨rfl, rfl⟩ := fires_registerItem.mp hfires
      obtain ⟨hid, hstep⟩ :=
        h.registerItem_step hanswers.1 hanswers.2 now sellerId item price
      simp only [act, hid]
      exact hstep
  | searchItems o criteria =>
      obtain ⟨result, hsearch, rfl⟩ := fires_searchItems.mp hfires
      have hsame : s'.marketplace = s.marketplace := by
        obtain ⟨redis, rfl⟩ := h.indexed.wellFiled.searchItems_frame hsearch
        rfl
      simp only [hsame]
      cases hcached : s.cachedResults o criteria with
      | some results =>
          rcases h.indexed.wellFiled.searchItems_cases hsearch with
            ⟨_, -, rfl, -⟩ | ⟨hmiss, -⟩
          · simp only [act, hcached, Option.isSome_some, if_true]
            exact .rest
          · rw [hcached] at hmiss
            cases hmiss
      | none =>
          obtain ⟨results, rfl, hanswer⟩ :=
            h.searchItems_step hanswers.2.1 hsearch hcached
          simp only [act, hcached, Option.isSome_none, Bool.false_eq_true,
            if_false]
          exact .shown hanswer
  | purchaseItem o now auctionId buyerId =>
      obtain ⟨rfl, rfl⟩ := fires_purchaseItem.mp hfires
      exact h.purchaseItem_step hanswers now auctionId buyerId
  | cancelListing o auctionId sellerId =>
      obtain ⟨rfl, rfl⟩ := fires_cancelListing.mp hfires
      obtain ⟨granted, hgranted, hstep⟩ :=
        h.cancelListing_step hanswers.1 hanswers.2 auctionId sellerId
      simp only [act, hgranted]
      exact hstep
  | processExpiredItems o now order =>
      obtain ⟨horder, rfl, rfl⟩ := fires_processExpiredItems.mp hfires
      obtain ⟨hok, hstep⟩ := h.processExpiredItems_step hanswers now horder
      simp only [act, hok]
      exact hstep
  | restart order failsAfter sellers =>
      obtain ⟨rfl, hsellers⟩ := hanswers
      obtain ⟨hrestart, rfl⟩ := fires_restart.mp hfires
      simp only [act, h.restart_marketplace hsellers hrestart]
      exact .rest
  | expireKey key =>
      obtain ⟨rfl, rfl⟩ := fires_expireKey.mp hfires
      exact .rest

theorem inMarket_preserves (db : Database) :
    machine.Preserves
      (fun e => e.input.StoreAnswers ∧ e.before.Undisturbed e.input)
      (InMarket db) := by
  rintro e hfires ⟨hanswers, hundisturbed⟩ h
  have hids := h.balanced.orderly.idsAdvance hfires hundisturbed
  have hwell := h.indexed.wellFiled
  exact ⟨balanced_preserves e hfires ⟨hanswers.faultless, hundisturbed⟩ h.balanced,
    indexed_preserves e hfires hanswers.lookupsAnswered h.indexed,
    sweepable_preserves e hfires hids h.sweepable,
    (occupied_preserves e hfires trivial ⟨hwell, h.noEmpty⟩).2,
    step_keepsLookups hfires hwell h.lookups⟩

variable {order : List AuctionDocument} {sellers : ℕ → ReadOutcome}

omit [StdSort] in
theorem Starts.inMarket (hdistinct : (db.auctions.map AuctionDocument.id).Nodup)
    (hlast : ∀ doc ∈ db.auctions, doc.id.toUInt64 ≠ -1) (hsolvent : db.Solvent)
    (hsellers : ∀ n, sellers n = .answered)
    (hstart : Starts db order none sellers s) : s.InMarket db := by
  obtain ⟨hperm, hdb, -⟩ := restart_loaded False.elim hstart
  have hreadable : db.BalancesReadable := by
    intro doc hdoc
    obtain ⟨b, hb, -⟩ := hsolvent.nonneg doc hdoc
    simp [hb]
  refine ⟨hstart.balanced hdistinct hlast hsolvent,
    hstart.indexed hreadable hsellers,
    hstart.sweepable hdistinct (sees_last_of_complete hperm hlast),
    hstart.occupied.2, ?_⟩
  rw [hdb]
  exact Database.KeepsLookups.refl db

omit [StdSort] in
theorem storeAnswers_cancel (auctionId : UInt64) :
    (cancel auctionId).StoreAnswers :=
  ⟨⟨rfl, by simp⟩, rfl⟩

omit [StdSort] in
theorem storeAnswers_search (criteria : SearchCriteria) :
    (search criteria).StoreAnswers :=
  ⟨rfl, fun _ => rfl, rfl⟩

end Server
end AuctionServer
