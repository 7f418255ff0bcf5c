import AuctionServer.House.Book

/-!
# A listing is disposed of once

A purchase or a cancellation that reports success has closed the listing in
memory and in its document.  The registry keeps both closed from then on, so
no later call can report success for the same id.
-/

namespace AuctionServer

namespace Server

/-- The call reports that it sold or cancelled the listing `id`. -/
def disposes (id : UInt64) (e : ServerEvent) : Bool :=
  match e.input, e.output with
  | .purchaseItem _ _ auctionId _, .purchased true => auctionId == id
  | .cancelListing _ auctionId _, .cancelled (.ok true) => auctionId == id
  | _, _ => false

/-! ## Successful closings -/

variable {s : Server} {id : UInt64} {old new : AuctionItem}

/-- A closing whose update succeeds settles the listing in both copies. -/
theorem settled_afterClose {o : ItemUpdateOutcomes} (seller : ReadOutcome)
    (hwell : s.WellFiled) (htidy : Registry.Tidy format s.book)
    (hold : s.house.auctionItems[id]? = some old)
    (hclosed : new.status ≠ .active) (hid : new.id = old.id)
    (hsucceeds : s.db.ItemUpdateSucceeds o new) :
    Registry.Settled format id (s.afterClose o seller id new).book := by
  have hkey : format.keyOf new = id := hid.trans (hwell.keyed id old hold)
  have hrecords : (s.afterClose o seller id new).book.records =
      Collection.updateOne format.key id (fun _ => format.encode new)
        s.book.records := by
    have hauctions : (s.afterClose o seller id new).db =
        (s.db.updateAuctionItem o new).2 := by
      simp only [afterClose]
      split <;> rfl
    have hwritten : (s.afterClose o seller id new).db.auctions =
        (s.db.setAuction new).auctions := by
      rw [hauctions]
      exact hsucceeds.auctions_eq
    rw [setAuction_eq, show new.id = id from hkey] at hwritten
    exact hwritten
  have hentries : (s.afterClose o seller id new).book.entries id = some new :=
    afterClose_item s o seller id new
  refine ⟨?_, ?_, ?_⟩
  · obtain ⟨doc, hdoc, -⟩ := Collection.modifiesOne_eq_true.mp hsucceeds.2.1
    have hmem : doc ∈ s.book.records := Collection.mem_of_findOne hdoc
    have hfound : doc.id = new.id.toInt64 := Collection.key_of_findOne hdoc
    have hdocid : format.key doc = id := by
      rw [← hkey]
      exact eq_toInt64_iff.mp hfound
    have hkeys : id ∈ (s.afterClose o seller id new).book.records.map
        format.key := by
      rw [hrecords, Registry.keys_close hkey, ← hdocid]
      exact List.mem_map_of_mem hmem
    obtain ⟨doc', hdoc', hdocid'⟩ := List.mem_map.mp hkeys
    exact ⟨doc', hdoc', hdocid'⟩
  · intro doc hdoc hdocid
    rw [hrecords, Collection.mem_updateOne_iff htidy.distinct] at hdoc
    rcases hdoc with ⟨-, hne⟩ | ⟨-, -, -, rfl⟩
    · exact (hne hdocid).elim
    · rw [format.decode_encode]
      exact hclosed
  · intro item hitem
    rw [hentries] at hitem
    obtain rfl := Option.some.inj hitem
    exact hclosed

/-- A purchase that reports success has passed every stage. -/
theorem purchaseItem_eq_true {o : PurchaseOutcomes} {now : Time}
    {buyerId : UInt32}
    (h : (s.purchaseItem o now id buyerId).1 = true) :
    ∃ listing, s.OnOffer id buyerId listing ∧
      (settle s.db o listing buyerId).1 = true ∧
      (settle s.db o listing buyerId).2.ItemUpdateSucceeds o.item
        (soldListing listing buyerId now) ∧
      (s.purchaseItem o now id buyerId).2 =
        afterClose { s with db := (settle s.db o listing buyerId).2 } o.item
          o.seller id (soldListing listing buyerId now) := by
  by_cases hoffer : ∃ listing, s.OnOffer id buyerId listing
  · obtain ⟨listing, hoffer⟩ := hoffer
    rw [purchaseItem_of_onOffer o now hoffer] at h ⊢
    by_cases hsettled : (settle s.db o listing buyerId).1 = true
    · rw [if_pos hsettled] at h ⊢
      obtain ⟨hafter, htrue⟩ := handOver_eq
        { s with db := (settle s.db o listing buyerId).2 } o
        s.db.beginTransaction now id listing buyerId
      exact ⟨listing, hoffer, hsettled, (htrue.mp h).1, hafter⟩
    · rw [if_neg hsettled] at h
      exact (Bool.false_ne_true h).elim
  · rw [purchaseItem_of_not_onOffer o now fun listing hl => hoffer ⟨listing, hl⟩]
      at h
    exact (Bool.false_ne_true h).elim

theorem cancelListing_eq_true {o : CancelOutcomes} {sellerId : UInt32}
    (h : (s.cancelListing o id sellerId).1 = .ok true) :
    ∃ listing, s.Cancellable id sellerId listing ∧
      s.db.ItemUpdateSucceeds o.item (cancelledListing listing) ∧
      (s.cancelListing o id sellerId).2 =
        s.afterClose o.item o.seller id (cancelledListing listing) := by
  by_cases hcancellable : ∃ listing, s.Cancellable id sellerId listing
  · obtain ⟨listing, hcancellable⟩ := hcancellable
    obtain ⟨hafter, htrue⟩ := cancelListing_of_cancellable o hcancellable
    exact ⟨listing, hcancellable, (htrue.mp h).1, hafter⟩
  · rw [cancelListing_of_not_cancellable o fun listing hl =>
      hcancellable ⟨listing, hl⟩] at h
    cases h

/-! ## Runs -/

/-- A registration does not assign the last id, and a restart loads the whole
collection. -/
def Undisturbed (s : Server) : Call → Prop
  | .registerItem _ _ _ _ _ => s.house.nextAuctionId ≠ -1
  | .restart _ failsAfter _ => failsAfter = none
  | _ => True

instance (s : Server) (call : Call) : Decidable (s.Undisturbed call) :=
  match call with
  | .registerItem _ _ _ _ _ => inferInstanceAs (Decidable (_ ≠ _))
  | .restart _ failsAfter _ => inferInstanceAs (Decidable (failsAfter = none))
  | .searchItems _ _ => isTrue trivial
  | .purchaseItem _ _ _ _ => isTrue trivial
  | .cancelListing _ _ _ => isTrue trivial
  | .processExpiredItems _ _ _ => isTrue trivial
  | .expireKey _ => isTrue trivial

/-- The two copies of the listings are in order. -/
structure Orderly (s : Server) : Prop where
  wellFiled : s.WellFiled
  tidy : Registry.Tidy format s.book

/-- In an orderly server, finding a document is its being stored. -/
theorem Orderly.findAuction_eq_some_iff (h : s.Orderly)
    {doc : AuctionDocument} :
    s.db.findAuction id = some doc ↔
      doc ∈ s.db.auctions ∧ format.key doc = id := by
  have hmatch : ∀ d : AuctionDocument,
      d.id = id.toInt64 ↔ format.key d = id := by
    intro d
    rw [eq_toInt64_iff]
    rfl
  have hsame : s.db.findAuction id =
      Collection.findOne format.key id s.db.auctions := by
    simp only [Database.findAuction, Collection.findOne, hmatch]
  rw [hsame]
  exact Collection.findOne_eq_some_iff h.tidy.distinct

theorem ne_last_of_lt {a b : UInt64} (h : a < b) : a ≠ -1 := by
  grind

variable [StdSort]

theorem Orderly.idsAdvance {e : ServerEvent} (h : e.before.Orderly)
    (hfires : machine.Fires e) (hcall : e.before.Undisturbed e.input) :
    e.before.IdsAdvance e.input := by
  obtain ⟨s, call, reply, s'⟩ := e
  cases call with
  | registerItem o now sellerId item price => exact hcall
  | restart order failsAfter sellers =>
      obtain rfl : failsAfter = none := hcall
      obtain ⟨hrestart, -⟩ := fires_restart.mp hfires
      obtain ⟨hperm, -⟩ := restart_loaded False.elim hrestart
      exact sees_last_of_complete hperm fun doc hdoc =>
        ne_last_of_lt (h.tidy.fresh doc hdoc)
  | searchItems o criteria => trivial
  | purchaseItem o now auctionId buyerId => trivial
  | cancelListing o auctionId sellerId => trivial
  | processExpiredItems o now order => trivial
  | expireKey key => trivial

theorem orderly_preserves :
    machine.Preserves (fun e => e.before.Undisturbed e.input) Orderly := by
  intro e hfires hcall h
  refine ⟨wellFiled_preserves e hfires trivial h.wellFiled, ?_⟩
  exact h.tidy.steps (step_book hfires h.wellFiled (h.idsAdvance hfires hcall))

theorem settled_preserves (id : UInt64) :
    machine.Preserves
      (fun e => e.before.Undisturbed e.input ∧ e.before.Orderly)
      fun s => Registry.Settled format id s.book := by
  intro e hfires hcall h
  obtain ⟨hcall, horderly⟩ := hcall
  exact h.steps horderly.tidy
    (step_book hfires horderly.wellFiled (horderly.idsAdvance hfires hcall))

omit [StdSort] in
/-- A server that differs from `s` in balances only. -/
theorem book_settle (s : Server) (o : PurchaseOutcomes) (listing : AuctionItem)
    (buyerId : UInt32) :
    book { s with db := (settle s.db o listing buyerId).2 } = s.book := by
  obtain ⟨hframe, -⟩ := settle_frame s.db o listing buyerId
  rw [hframe]
  rfl

/-- A disposing call closes an open listing of an orderly server, and its
update succeeds. -/
theorem disposes_spec {e : ServerEvent} (hfires : machine.Fires e)
    (horderly : e.before.Orderly) (h : disposes id e = true) :
    (∃ old : AuctionItem, e.before.house.auctionItems[id]? = some old ∧
        old.status = .active) ∧
      Registry.Settled format id e.after.book := by
  obtain ⟨s, call, reply, s'⟩ := e
  cases call with
  | purchaseItem o now auctionId buyerId =>
      obtain ⟨rfl, rfl⟩ := fires_purchaseItem.mp hfires
      have hboth : auctionId = id ∧
          (s.purchaseItem o now auctionId buyerId).1 = true := by
        revert h
        cases (s.purchaseItem o now auctionId buyerId).1 <;> simp [disposes]
      obtain ⟨rfl, htrue⟩ := hboth
      obtain ⟨listing, ⟨hitem, hactive, -⟩, -, hsucceeds, hafter⟩ :=
        purchaseItem_eq_true htrue
      refine ⟨⟨listing, hitem, hactive⟩, ?_⟩
      have hwell : WellFiled
          { s with db := (settle s.db o listing buyerId).2 } :=
        ⟨horderly.wellFiled.keyed, horderly.wellFiled.known⟩
      have htidy : Registry.Tidy format
          (book { s with db := (settle s.db o listing buyerId).2 }) := by
        rw [book_settle]
        exact horderly.tidy
      simp only [hafter]
      exact settled_afterClose o.seller hwell htidy hitem
        (by simp [soldListing]) rfl hsucceeds
  | cancelListing o auctionId sellerId =>
      obtain ⟨rfl, rfl⟩ := fires_cancelListing.mp hfires
      have hboth : auctionId = id ∧
          (s.cancelListing o auctionId sellerId).1 = .ok true := by
        revert h
        rcases (s.cancelListing o auctionId sellerId).1 with e | result
        · simp [disposes]
        · cases result <;> simp [disposes]
      obtain ⟨rfl, htrue⟩ := hboth
      obtain ⟨listing, ⟨hitem, hactive, -⟩, hsucceeds, hafter⟩ :=
        cancelListing_eq_true htrue
      refine ⟨⟨listing, hitem, hactive⟩, ?_⟩
      simp only [hafter]
      exact settled_afterClose o.seller horderly.wellFiled horderly.tidy hitem
        (by simp [cancelledListing]) rfl hsucceeds
  | _ => simp [disposes] at h

variable {db : Database} {order : List AuctionDocument} {failsAfter : Option ℕ}
  {sellers : ℕ → ReadOutcome}

omit [StdSort] in
/-- A start that sees the greatest stored id is orderly, if the stored ids are
distinct. -/
theorem Starts.orderly_of_seesLastId
    (hdistinct : (db.auctions.map AuctionDocument.id).Nodup)
    (hlast : SeesLastId db order failsAfter)
    (hstart : Starts db order failsAfter sellers s) : s.Orderly := by
  obtain ⟨-, hdb, -⟩ := restart_loaded False.elim hstart
  have hrecords : s.book.records = db.auctions := by
    simp [book, hdb]
  refine ⟨hstart.wellFiled, hstart.wellFiled.keyed, ?_, ?_⟩
  · have hkeys : db.auctions.map format.key =
        (db.auctions.map AuctionDocument.id).map Int64.toUInt64 := by
      rw [List.map_map]
      rfl
    rw [hrecords, hkeys]
    exact hdistinct.map toUInt64_injective
  · intro doc hdoc
    rw [hrecords] at hdoc
    exact restart_fresh hlast hstart doc hdoc

omit [StdSort] in
/-- A start that loads everything is orderly, if the stored ids are distinct
and can be counted past. -/
theorem Starts.orderly (hdistinct : (db.auctions.map AuctionDocument.id).Nodup)
    (hlast : ∀ doc ∈ db.auctions, doc.id.toUInt64 ≠ -1)
    (hstart : Starts db order none sellers s) : s.Orderly := by
  obtain ⟨hperm, -⟩ := restart_loaded False.elim hstart
  exact hstart.orderly_of_seesLastId hdistinct
    (sees_last_of_complete hperm hlast)

/-- Whatever the store answers, at most one purchase or cancellation of a
listing ever reports success. -/
theorem disposed_at_most_once
    (hdistinct : (db.auctions.map AuctionDocument.id).Nodup)
    (hlast : ∀ doc ∈ db.auctions, doc.id.toUInt64 ≠ -1)
    {calls : List Call} {es : List ServerEvent}
    (hserve : serve db order none sellers calls = some (es, s))
    (hcalls : ∀ e ∈ es, e.before.Undisturbed e.input) (id : UInt64) :
    es.countP (disposes id) ≤ 1 := by
  obtain ⟨s₀, hstart, hrun⟩ := serve_eq_some.mp hserve
  refine Machine.run_countP_le_one orderly_preserves (settled_preserves id) ?_ ?_
    hrun hcalls (hstart.orderly hdistinct hlast)
  · intro e hfires _ horderly hdisposes hsettled
    obtain ⟨⟨old, hitem, hactive⟩, -⟩ :=
      disposes_spec hfires horderly hdisposes
    exact hsettled.entry old hitem hactive
  · intro e hfires _ horderly hdisposes
    exact (disposes_spec hfires horderly hdisposes).2

omit [StdSort] in
/-- A listing is sold, and neither a second buyer nor its seller, before and
after a restart, gets hold of it again. -/
theorem disposed_at_most_once_market :
    ∃ es s, @serve StdSort.insertion market [] none (fun _ => .answered)
        [offer "iron sword", purchase 1, cancel 1, purchase 1,
          .restart [soldDocument "iron sword"] none fun _ => .answered,
          purchase 1] = some (es, s) ∧
      es.countP (disposes 1) = 1 ∧ es.countP (disposes 1) ≤ 1 := by
  obtain ⟨es, s, hserve, hes⟩ :=
    @exists_serve StdSort.insertion market [] none (fun _ => .answered)
      [offer "iron sword", purchase 1, cancel 1, purchase 1,
        .restart [soldDocument "iron sword"] none fun _ => .answered,
        purchase 1]
      (fun es _ => es.all (fun e => decide (e.before.Undisturbed e.input)) &&
        decide (es.countP (disposes 1) = 1)) (by decide)
  simp only [Bool.and_eq_true, List.all_eq_true, decide_eq_true_eq] at hes
  exact ⟨es, s, hserve, hes.2,
    @disposed_at_most_once s StdSort.insertion market [] _ (by decide) (by decide)
      _ es hserve hes.1 1⟩

end Server
end AuctionServer
