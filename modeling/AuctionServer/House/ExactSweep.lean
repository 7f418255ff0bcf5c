import AuctionServer.House.RemovalKeys

/-!
# What a sweep changes

When no store call of a sweep fails, the sweep closes the due listings in
memory and in their documents, takes their ids out of the indices, and changes
nothing else, in whatever order it visits the listings.  A second sweep at the
same time finds nothing due.
-/

namespace AuctionServer

open AuctionHouse (SameListings removalKeys)

/-- The listing after a sweep. -/
def sweptListing (now : Time) (item : AuctionItem) : AuctionItem :=
  if Server.isExpired now item then Server.expiredListing item else item

/-- The document after the listing it holds expires. -/
def expiredDocument (doc : AuctionDocument) : AuctionDocument :=
  itemToBson (Server.expiredListing (bsonToItem doc))

theorem isExpired_expiredListing (now : Time) (item : AuctionItem) :
    Server.isExpired now (Server.expiredListing item) = false := by
  simp [Server.isExpired, Server.expiredListing]

theorem isExpired_sweptListing (now : Time) (item : AuctionItem) :
    Server.isExpired now (sweptListing now item) = false := by
  rw [sweptListing]
  split
  · exact isExpired_expiredListing now item
  · next hdue => simpa using hdue

@[simp] theorem expiredDocument_id (doc : AuctionDocument) :
    (expiredDocument doc).id = doc.id := by
  simp [expiredDocument, Server.expiredListing]

namespace Server

/-- The listing under `id` is due. -/
def isDue (s : Server) (now : Time) (id : UInt64) : Bool :=
  (s.house.auctionItems[id]?).any (isExpired now)

/-- No store call that a sweep makes for a due listing fails. -/
def SweepAnswered (s : Server) (o : SweepOutcomes) (now : Time) : Prop :=
  ∀ id item, s.Due now id item →
    (o.item id).Answered ∧ o.seller id = .answered ∧ s.db.Readable item.sellerId

/-- Going from `s` to `s'` closes the listings of `s` that are due and their
documents, withdraws their ids from the indices, and changes nothing else. -/
structure SweptExactly (now : Time) (s s' : Server) : Prop where
  items : ∀ id : UInt64, s'.house.auctionItems[id]? =
    (s.house.auctionItems[id]?).map (sweptListing now)
  next : s'.house.nextAuctionId = s.house.nextAuctionId
  stored : ∀ id item, s.Due now id item →
    ∃ doc ∈ s.db.auctions, doc.id.toUInt64 = id ∧ bsonToItem doc = item
  documents : s'.db.auctions = s.db.auctions.map fun doc =>
    if s.isDue now doc.id.toUInt64 then expiredDocument doc else doc
  users : s'.db.users = s.db.users
  files : ∀ k id,
    s'.house.Files k id ↔ s.house.Files k id ∧ s.isDue now id = false
  noEmpty : s'.house.NoEmptyBucket

variable {s s' s'' : Server} {now : Time} {id : UInt64} {item : AuctionItem}

theorem isDue_iff : s.isDue now id = true ↔ ∃ item, s.Due now id item := by
  simp [isDue, Due, Option.any_eq_true]

/-! ## The first loop -/

/-- Going from `s` to `s'` visits the listings under `ids`. -/
structure Visited (now : Time) (ids : List UInt64) (s s' : Server) : Prop where
  items : ∀ id : UInt64, s'.house.auctionItems[id]? =
    if id ∈ ids then (s.house.auctionItems[id]?).map (sweptListing now)
    else s.house.auctionItems[id]?
  next : s'.house.nextAuctionId = s.house.nextAuctionId
  documents : s'.db.auctions = s.db.auctions.map fun doc =>
    if doc.id.toUInt64 ∈ ids ∧ s.isDue now doc.id.toUInt64 then
      expiredDocument doc
    else doc

variable {ids ids' : List UInt64}

/-- What was visited is no longer due. -/
theorem Visited.due_iff (h : Visited now ids s s') :
    s'.Due now id item ↔ s.Due now id item ∧ id ∉ ids := by
  rw [Due, Due, h.items id]
  by_cases hid : id ∈ ids
  · rw [if_pos hid]
    constructor
    · rintro ⟨hitem, hdue⟩
      obtain ⟨old, -, rfl⟩ := Option.map_eq_some_iff.mp hitem
      rw [isExpired_sweptListing] at hdue
      cases hdue
    · rintro ⟨-, hnot⟩
      exact (hnot hid).elim
  · rw [if_neg hid]
    exact ⟨fun hdue => ⟨hdue, hid⟩, And.left⟩

theorem Visited.isDue_iff (h : Visited now ids s s') :
    s'.isDue now id = true ↔ s.isDue now id = true ∧ id ∉ ids := by
  rw [Server.isDue_iff, Server.isDue_iff]
  simp only [h.due_iff, exists_and_right]

theorem Visited.trans (h : Visited now ids s s')
    (h' : Visited now ids' s' s'') : Visited now (ids ++ ids') s s'' where
  items id := by
    have hidem : ∀ item, sweptListing now (sweptListing now item) =
        sweptListing now item := by
      intro item
      rw [sweptListing, isExpired_sweptListing]
      rfl
    rw [h'.items id, h.items id]
    by_cases hid : id ∈ ids
    · by_cases hid' : id ∈ ids'
      · simp [hid, hid', Function.comp_def, hidem]
      · simp [hid, hid']
    · simp [hid]
  next := h'.next.trans h.next
  documents := by
    rw [h'.documents, h.documents, List.map_map]
    apply List.map_congr_left
    intro doc _
    have hid : (if doc.id.toUInt64 ∈ ids ∧ s.isDue now doc.id.toUInt64 then
        expiredDocument doc else doc).id = doc.id := by
      split
      · exact expiredDocument_id doc
      · rfl
    simp only [Function.comp_apply, hid, h.isDue_iff, List.mem_append]
    by_cases hmem : doc.id.toUInt64 ∈ ids
    · simp [hmem]
    · simp [hmem]

theorem visited_of_not_due (h : ∀ item, ¬ s.Due now id item) :
    Visited now [id] s s where
  items id' := by
    split
    · next hid =>
        obtain rfl := List.mem_singleton.mp hid
        cases hitem : s.house.auctionItems[id']? with
        | none => rfl
        | some item =>
            have hdue : isExpired now item = false := by
              simpa using fun hdue => h item ⟨hitem, hdue⟩
            simp [sweptListing, hdue]
    · rfl
  next := rfl
  documents := by
    have hsame : ∀ doc ∈ s.db.auctions,
        (if doc.id.toUInt64 ∈ [id] ∧ s.isDue now doc.id.toUInt64 then
          expiredDocument doc else doc) = doc := by
      intro doc _
      rw [if_neg]
      rintro ⟨hid, hdue⟩
      obtain ⟨item, hitem⟩ := isDue_iff.mp hdue
      rw [List.mem_singleton.mp hid] at hitem
      exact h item hitem
    rw [List.map_congr_left hsame, List.map_id']

/-- An answered update of a due listing visits it. -/
theorem Stored.visited (h : s.Stored) {o : ItemUpdateOutcomes}
    (ho : o.Answered) (hdue : s.Due now id item) :
    Visited now [id] s (s.afterExpiry o id item) where
  items id' := by
    simp only [afterExpiry, List.mem_singleton]
    rcases eq_or_ne id' id with rfl | hne
    · rw [setItem_self, if_pos rfl, hdue.1]
      simp [sweptListing, hdue.2]
    · rw [setItem_of_ne _ _ hne.symm, if_neg hne]
  next := rfl
  documents := by
    have hkey : item.id = id := h.orderly.wellFiled.keyed id item hdue.1
    have hsucceeds : s.db.ItemUpdateSucceeds o (expiredListing item) :=
      h.itemUpdateSucceeds ho hdue.1 hdue.active (by simp [expiredListing]) rfl
    have hdistinct : (s.db.auctions.map format.key).Nodup :=
      h.orderly.tidy.distinct
    rw [afterExpiry, hsucceeds.auctions_eq, setAuction_eq,
      Collection.updateOne_eq_map hdistinct]
    apply List.map_congr_left
    intro doc hdoc
    rw [show (expiredListing item).id = id from hkey,
      show format.key doc = doc.id.toUInt64 from rfl]
    by_cases hid : doc.id.toUInt64 = id
    · have hdecode := h.decode hdue.1 hdue.active hdoc hid
      rw [if_pos hid, if_pos ⟨List.mem_singleton.mpr hid,
        isDue_iff.mpr ⟨item, hid ▸ hdue⟩⟩, expiredDocument, hdecode]
    · rw [if_neg hid, if_neg fun hboth => hid (List.mem_singleton.mp hboth.1)]

/-- The first loop visits the ids it is given, and reports those that were
due. -/
theorem Stored.expireItems (h : s.Stored) {o : UInt64 → ItemUpdateOutcomes}
    (ho : ∀ id item, s.Due now id item → (o id).Answered)
    (ids : List UInt64) :
    ∃ expired s', Server.expireItems o now ids s = (.ok expired, s') ∧
      Visited now ids s s' ∧
      ∀ id, id ∈ expired ↔ id ∈ ids ∧ s.isDue now id = true := by
  induction ids generalizing s with
  | nil =>
      refine ⟨[], s, rfl, ⟨?_, rfl, ?_⟩, by simp⟩
      · simp
      · simp
  | cons id ids ih =>
      by_cases hdue : ∃ item, s.Due now id item
      · obtain ⟨item, hdue⟩ := hdue
        have hanswered := ho id item hdue
        have hsucceeds : s.db.ItemUpdateSucceeds (o id) (expiredListing item) :=
          h.itemUpdateSucceeds hanswered hdue.1 hdue.active
            (by simp [expiredListing]) rfl
        have hvisited := h.visited hanswered hdue
        have hmove : Move ⟨False, False, True⟩ s
            (s.afterExpiry (o id) id item) := expiry_move hdue False.elim
        have hstored : (s.afterExpiry (o id) id item).Stored :=
          h.moves trivial (Relation.ReflTransGen.single hmove)
        obtain ⟨expired, s', heq, hrest, hexpired⟩ := ih hstored
          fun id' item' hdue' => ho id' item' (hvisited.due_iff.mp hdue').1
        refine ⟨id :: expired, s', ?_, hvisited.trans hrest, ?_⟩
        · rw [expireItems_cons_of_due ids hdue,
            Database.updateAuctionItem_fst_eq_true.mpr hsucceeds, heq]
          rfl
        · intro id'
          have hself : s.isDue now id = true := isDue_iff.mpr ⟨item, hdue⟩
          simp only [List.mem_cons, hexpired, hvisited.isDue_iff,
            List.not_mem_nil, or_false]
          rcases eq_or_ne id' id with rfl | hne
          · simp [hself]
          · simp [hne]
      · have hnot : ∀ item, ¬ s.Due now id item := fun item hd =>
          hdue ⟨item, hd⟩
        obtain ⟨expired, s', heq, hrest, hexpired⟩ := ih h ho
        refine ⟨expired, s', ?_, (visited_of_not_due hnot).trans hrest, ?_⟩
        · rw [expireItems_cons_of_not_due ids hnot, heq]
        · intro id'
          rw [hexpired, List.mem_cons]
          constructor
          · rintro ⟨hmem, hd⟩
            exact ⟨Or.inr hmem, hd⟩
          · rintro ⟨rfl | hmem, hd⟩
            · exact (hdue (isDue_iff.mp hd)).elim
            · exact ⟨hmem, hd⟩

/-! ## The second loop -/

/-- The second loop withdraws each id from all the keys of its listing. -/
theorem removeExpired_withdraws {seller : UInt64 → ReadOutcome} {db : Database}
    {house : AuctionHouse}
    (hkeyed : ∀ (id : UInt64) (item : AuctionItem),
      house.auctionItems[id]? = some item → item.id = id)
    (hanswered : ∀ id ∈ ids, ∀ item : AuctionItem, house.auctionItems[id]? = some item →
      seller id = .answered ∧ db.Readable item.sellerId) :
    ∃ house', removeExpired seller db ids house = (.ok (), house') ∧
      SameListings house house' ∧
      ∀ k id, house'.Files k id ↔ house.Files k id ∧
        ¬ (id ∈ ids ∧ ∃ item, house.auctionItems[id]? = some item ∧
          k ∈ removalKeys item (db.usernameOf item.sellerId)) := by
  induction ids generalizing house with
  | nil => exact ⟨house, rfl, ⟨rfl, rfl⟩, by simp⟩
  | cons i ids ih =>
      have hrest : ∀ id ∈ ids, ∀ item : AuctionItem, house.auctionItems[id]? =
          some item → seller id = .answered ∧ db.Readable item.sellerId :=
        fun id hid => hanswered id (List.mem_cons_of_mem _ hid)
      cases hitem : house.auctionItems[i]? with
      | none =>
          obtain ⟨house', heq, hsame, hfiles⟩ := ih hkeyed hrest
          refine ⟨house', by simpa [removeExpired, hitem] using heq, hsame, ?_⟩
          intro k id
          rw [hfiles k id, List.mem_cons]
          rcases eq_or_ne id i with rfl | hne
          · simp [hitem]
          · simp [hne]
      | some item =>
          obtain ⟨hseller, hreadable⟩ := hanswered i (by simp) item hitem
          obtain ⟨info, hinfo, hname⟩ := hreadable.lookup
          obtain ⟨removed, hremove, hsame, hwithdraws⟩ :=
            AuctionHouse.removeFromIndices_ok house hinfo
          rw [hname, hkeyed i item hitem] at hwithdraws
          obtain ⟨house', heq, hsame', hfiles⟩ := @ih removed
            (fun id item' hitem' =>
              hkeyed id item' (by rw [← hsame.1]; exact hitem'))
            (fun id hid item' hitem' =>
              hrest id hid item' (by rw [← hsame.1]; exact hitem'))
          refine ⟨house', ?_, ⟨hsame'.1.trans hsame.1, hsame'.2.trans hsame.2⟩,
            ?_⟩
          · simp only [removeExpired, hitem, hseller, hremove]
            exact heq
          · intro k id
            rw [hfiles k id, hwithdraws k id, hsame.1, List.mem_cons]
            rcases eq_or_ne id i with rfl | hne
            · simp [hitem, and_assoc]
              tauto
            · simp [hne]

/-! ## The sweep -/

/-- A sweep that finds nothing due does nothing. -/
theorem processExpiredItems_of_not_due (h : ∀ id item, ¬ s.Due now id item)
    (o : SweepOutcomes) (order : List UInt64) :
    s.processExpiredItems o now order = (.ok (), s) := by
  have hexpire : Server.expireItems o.item now order s = (.ok [], s) := by
    induction order with
    | nil => rfl
    | cons id order ih => rw [expireItems_cons_of_not_due order (h id), ih]
  simp [processExpiredItems, hexpire, removeExpired]

theorem SweptExactly.not_due (h : SweptExactly now s s') (id : UInt64)
    (item : AuctionItem) : ¬ s'.Due now id item := by
  rintro ⟨hitem, hdue⟩
  rw [h.items id] at hitem
  obtain ⟨old, -, rfl⟩ := Option.map_eq_some_iff.mp hitem
  rw [isExpired_sweptListing] at hdue
  cases hdue

/-- The first loop closes what it visits and leaves the rest as it was. -/
theorem Sweepable.expireItems (h : s.Sweepable)
    {o : UInt64 → ItemUpdateOutcomes}
    (ho : ∀ id item, s.Due now id item → (o id).Answered)
    (order : List UInt64) :
    ∃ expired s', Server.expireItems o now order s = (.ok expired, s') ∧
      Visited now order s s' ∧
      (∀ id, id ∈ expired ↔ id ∈ order ∧ s.isDue now id = true) ∧
      s'.db.users = s.db.users ∧
      (∀ k id, s'.house.Files k id ↔ s.house.Files k id) ∧
      s'.WellFiled ∧ s'.Removable := by
  obtain ⟨expired, s', heq, hvisited, hexpired⟩ := h.stored.expireItems ho order
  have hs' : s' = (Server.expireItems o now order s).2 := by rw [heq]
  have husers : s'.db.users = s.db.users := by
    rw [hs', expireItems_users]
  have hfiles : ∀ k id, s'.house.Files k id ↔ s.house.Files k id := by
    intro k id
    rw [hs', files_expireItems]
  have hcloses : Closes Set.univ s s' := by
    rw [hs']
    exact expireItems_closes o now order s
  refine ⟨expired, s', heq, hvisited, hexpired, husers, hfiles, ?_, ?_⟩
  · rw [hs']
    exact h.stored.orderly.wellFiled.moves
      (@expireItems_moves o now ⟨False, False, False⟩ False.elim order s).1
  · exact h.removable.sheds hcloses (Database.SameNames.of_users husers).1
      fun k id => (hfiles k id).mp

/-- An answered sweep of stored listings that can be removed is exact. -/
theorem Sweepable.processExpiredItems (h : s.Sweepable)
    (hnoEmpty : s.house.NoEmptyBucket) {o : SweepOutcomes}
    (ho : s.SweepAnswered o now) {order : List UInt64}
    (horder : order.isPerm s.house.auctionItems.keys = true) :
    (s.processExpiredItems o now order).1 = .ok () ∧
      SweptExactly now s (s.processExpiredItems o now order).2 := by
  have hvisits : ∀ id, id ∈ order ↔ id ∈ s.house.auctionItems := by
    intro id
    rw [(List.isPerm_iff.mp horder).mem_iff, Std.ExtTreeMap.mem_keys]
  have hall : ∀ id, s.isDue now id = true → id ∈ order := by
    intro id hdue
    obtain ⟨item, hitem, -⟩ := isDue_iff.mp hdue
    rw [hvisits, Std.ExtTreeMap.mem_iff_isSome_getElem?, hitem]
    rfl
  obtain ⟨expired, s', heq, hvisited, hexpired, husers, hfiles, hwell,
    hremovable⟩ := h.expireItems (fun id item hd => (ho id item hd).1) order
  obtain ⟨house, hremove, hsame, hwithdrawn⟩ := @removeExpired_withdraws expired
    o.seller s'.db s'.house hwell.keyed (by
      intro id hid item hitem
      obtain ⟨hmem, hdue⟩ := (hexpired id).mp hid
      obtain ⟨old, hold⟩ := isDue_iff.mp hdue
      obtain ⟨-, hseller, hreadable⟩ := ho id old hold
      rw [hvisited.items id, if_pos hmem, hold.1] at hitem
      obtain rfl : sweptListing now old = item := by simpa using hitem
      rw [sweptListing, if_pos hold.2]
      exact ⟨hseller, hreadable.of_users husers⟩)
  have hafter : s.processExpiredItems o now order =
      (.ok (), { s' with house }) := by
    simp [Server.processExpiredItems, heq, hremove]
  have hoccupied := processExpiredItems_noEmptyBucket hnoEmpty o now order
  rw [hafter] at hoccupied ⊢
  refine ⟨rfl, ?_, hsame.2.trans hvisited.next, ?_, ?_, husers, ?_, hoccupied⟩
  · intro id
    simp only [hsame.1, hvisited.items id, hvisits]
    split
    · rfl
    · next hmem => simp [Std.ExtTreeMap.getElem?_eq_none hmem]
  · intro id item hdue
    obtain ⟨doc, hdoc, hdecode⟩ := h.stored.document hdue.1 hdue.active
    obtain ⟨hmem, hkey⟩ := h.stored.orderly.findAuction_eq_some_iff.mp hdoc
    exact ⟨doc, hmem, hkey, hdecode⟩
  · rw [hvisited.documents]
    apply List.map_congr_left
    intro doc _
    rw [if_congr (and_iff_right_of_imp (hall _)) rfl rfl]
  · -- An id that is withdrawn was filed under keys of its own listing only.
    intro k id
    change house.Files k id ↔ _
    rw [hwithdrawn k id, hfiles k id, hexpired, ← Bool.not_eq_true]
    refine and_congr_right fun hfiled => not_congr ?_
    constructor
    · exact fun hid => hid.1.2
    · intro hdue
      exact ⟨⟨hall id hdue, hdue⟩,
        hremovable k id ((hfiles k id).mpr hfiled)⟩

/-! ## Runs -/

variable {db : Database} {startOrder : List AuctionDocument}
  {failsAfter : Option ℕ} {sellers : ℕ → ReadOutcome}

/-- Whatever failed before, an answered sweep of a reachable house is exact and
leaves a second one nothing to do, provided every start of the run sees a
document with the greatest stored id. -/
theorem processExpiredItems_exact [StdSort]
    (hdistinct : (db.auctions.map AuctionDocument.id).Nodup)
    {calls : List Call} {es : List ServerEvent}
    (hserve : serve db startOrder failsAfter sellers calls = some (es, s))
    (hstart : SeesLastId db startOrder failsAfter)
    (hcalls : ∀ e ∈ es, e.before.IdsAdvance e.input)
    {o : SweepOutcomes} {now : Time} {order : List UInt64}
    (horder : order.isPerm s.house.auctionItems.keys = true)
    (ho : s.SweepAnswered o now) :
    (s.processExpiredItems o now order).1 = .ok () ∧
      SweptExactly now s (s.processExpiredItems o now order).2 ∧
      ∀ o' order',
        (s.processExpiredItems o now order).2.processExpiredItems o' now order' =
          (.ok (), (s.processExpiredItems o now order).2) := by
  have hreachable : s.Reachable :=
    ⟨db, startOrder, failsAfter, sellers, calls, es, hserve⟩
  obtain ⟨s₀, hstarts, hrun⟩ := serve_eq_some.mp hserve
  have hsweepable : s.Sweepable := (Machine.run_invariant sweepable_preserves
    hrun hcalls (hstarts.sweepable hdistinct hstart)).1
  obtain ⟨hok, hswept⟩ :=
    hsweepable.processExpiredItems hreachable.occupied.2 ho horder
  exact ⟨hok, hswept, processExpiredItems_of_not_due hswept.not_due⟩

/-- A sweep whose store calls are all answered. -/
def answeredSweep : SweepOutcomes where
  item := fun _ => ⟨.done, .done⟩
  seller := fun _ => .answered

theorem sweepAnswered_of_readable (h : s.db.BalancesReadable) (now : Time) :
    s.SweepAnswered answeredSweep now := by
  intro id item _
  obtain ⟨info, hinfo, -⟩ := Database.getUserInfo_of_readable h item.sellerId
  exact ⟨⟨rfl, by simp [answeredSweep]⟩, rfl, info, hinfo⟩

/-- Two of three listings are due, share the buckets of their type, seller and
price with the third, and expire together. -/
theorem processExpiredItems_exact_market :
    ∃ es s, @serve StdSort.insertion market [] none (fun _ => .answered)
        [offer "iron sword", offer "oak shield",
          .registerItem ⟨.done, .answered⟩ 500000 7 (itemNamed "bow") 60] =
            some (es, s) ∧
      [1, 2, 3].map (s.isDue 700000) = [true, true, false] ∧
      (s.processExpiredItems answeredSweep 700000 [3, 1, 2]).1 = .ok () ∧
      SweptExactly 700000 s
        (s.processExpiredItems answeredSweep 700000 [3, 1, 2]).2 ∧
      ∀ o' order', (s.processExpiredItems answeredSweep 700000
          [3, 1, 2]).2.processExpiredItems o' 700000 order' =
        (.ok (), (s.processExpiredItems answeredSweep 700000 [3, 1, 2]).2) := by
  obtain ⟨es, s, hserve, hes⟩ :=
    @exists_serve StdSort.insertion market [] none (fun _ => .answered)
      [offer "iron sword", offer "oak shield",
        .registerItem ⟨.done, .answered⟩ 500000 7 (itemNamed "bow") 60]
      (fun es s => es.all (fun e => decide (e.before.IdsAdvance e.input)) &&
        decide ([1, 2, 3].map (s.isDue 700000) = [true, true, false]) &&
        List.isPerm [3, 1, 2] s.house.auctionItems.keys &&
        s.db.users.all fun doc => decide (doc.balance ≠ none))
      (by decide)
  simp only [Bool.and_eq_true, List.all_eq_true, decide_eq_true_eq] at hes
  obtain ⟨⟨⟨hcalls, hdue⟩, horder⟩, hreadable⟩ := hes
  exact ⟨es, s, hserve, hdue,
    @processExpiredItems_exact s market [] none _ StdSort.insertion (by decide)
      _ es hserve (by decide) hcalls _ _ _ horder
      (sweepAnswered_of_readable hreadable 700000)⟩

/-- A start whose query fails gives the id of the sold listing to a new one;
when that one expires, the sweep writes the document of the old listing, and
the document of the new one stays as it was. -/
theorem reused_id_expires_old_document :
    (soldMarket.auctions.map AuctionDocument.id).Nodup ∧
      ∃ es s, @serve StdSort.insertion soldMarket [soldDocument "iron sword"]
          (some 0) (fun _ => .answered) [offer "oak shield"] = some (es, s) ∧
        List.isPerm [1] s.house.auctionItems.keys = true ∧
        s.SweepAnswered answeredSweep 700000 ∧
        s.isDue 700000 1 = true ∧
        itemToBson (newListing 1 1000 7 (itemNamed "oak shield") 60) ∈
          (s.processExpiredItems answeredSweep 700000 [1]).2.db.auctions ∧
        ¬ SweptExactly 700000 s
          (s.processExpiredItems answeredSweep 700000 [1]).2 := by
  refine ⟨by decide, ?_⟩
  obtain ⟨es, s, hserve, hes⟩ :=
    @exists_serve StdSort.insertion soldMarket [soldDocument "iron sword"]
      (some 0) (fun _ => .answered) [offer "oak shield"]
      (fun _ s => List.isPerm [1] s.house.auctionItems.keys &&
        s.db.users.all (fun doc => decide (doc.balance ≠ none)) &&
        s.isDue 700000 1 &&
        decide (itemToBson (newListing 1 1000 7 (itemNamed "oak shield") 60) ∈
          (s.processExpiredItems answeredSweep 700000 [1]).2.db.auctions) &&
        decide ((s.processExpiredItems answeredSweep 700000 [1]).2.db.auctions ≠
          s.db.auctions.map fun doc =>
            if s.isDue 700000 doc.id.toUInt64 then expiredDocument doc else doc))
      (by decide +kernel)
  simp only [Bool.and_eq_true, List.all_eq_true, decide_eq_true_eq] at hes
  obtain ⟨⟨⟨⟨horder, hreadable⟩, hdue⟩, hkept⟩, hdocuments⟩ := hes
  exact ⟨es, s, hserve, horder, sweepAnswered_of_readable hreadable 700000, hdue,
    hkept, fun hswept => hdocuments hswept.documents⟩

end Server
end AuctionServer
