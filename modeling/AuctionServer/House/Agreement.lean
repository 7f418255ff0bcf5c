import AuctionServer.House.Disposal

/-!
# Memory and documents agree

As long as no write is lost, the listings in memory are what the documents
decode to.  The update that closes a listing then finds its document and
changes it, so it is reported as successful.
-/

namespace AuctionServer

open Relation (ReflTransGen)

namespace Server

/-- The two copies of the listings are in order and agree. -/
structure Agreeing (s : Server) : Prop where
  orderly : s.Orderly
  agrees : Registry.Agrees format s.book

variable {s s' : Server}

theorem Agreeing.moves {g : Guarantees} (h : s.Agreeing) (hids : g.ids)
    (hwrites : g.writes) (hmoves : ReflTransGen (Move g) s s') :
    s'.Agreeing := by
  have hsteps := book_moves h.orderly.wellFiled hids hmoves
  rw [eq_true hwrites] at hsteps
  exact ⟨⟨h.orderly.wellFiled.moves hmoves, h.orderly.tidy.steps hsteps⟩,
    h.agrees.steps h.orderly.tidy hsteps⟩

/-- While the copies agree, the document of a listing in memory is there. -/
theorem Agreeing.findAuction (h : s.Agreeing) {id : UInt64}
    {item : AuctionItem} (hitem : s.house.auctionItems[id]? = some item) :
    ∃ doc, s.db.findAuction id = some doc ∧ bsonToItem doc = item := by
  obtain ⟨doc, hdoc, hdecode, hkey⟩ := (h.agrees id item).mp hitem
  exact ⟨doc, h.orderly.findAuction_eq_some_iff.mpr ⟨hdoc, hkey⟩, hdecode⟩

/-- While the copies agree, the next id is not the id of a listing. -/
theorem Agreeing.next_unused (h : s.Agreeing) :
    s.house.nextAuctionId ∉ s.house.auctionItems := by
  intro hmem
  rw [Std.ExtTreeMap.mem_iff_isSome_getElem?, Option.isSome_iff_exists] at hmem
  obtain ⟨old, hold⟩ := hmem
  obtain ⟨doc, hdoc, hkey⟩ := (h.agrees _ old).mp hold
  have hfresh := h.orderly.tidy.fresh doc hdoc
  rw [hkey.2] at hfresh
  exact UInt64.lt_irrefl _ hfresh

/-- An answered update that closes the listing of an open document changes the
document. -/
theorem itemUpdateSucceeds_of_document {db : Database} {o : ItemUpdateOutcomes}
    {new : AuctionItem} {doc : AuctionDocument} (hupdate : o.update = .done)
    (hdel : ∀ applied, o.del ≠ .raised applied)
    (hdoc : db.findAuction new.id = some doc)
    (hactive : (bsonToItem doc).status = .active)
    (hclosed : new.status ≠ .active) : db.ItemUpdateSucceeds o new := by
  refine ⟨hupdate, ?_, fun _ => hdel⟩
  refine Collection.modifiesOne_eq_true.mpr ⟨doc, hdoc, ?_⟩
  intro hsame
  have hstatus := congrArg (fun d => (bsonToItem d).status) hsame
  rw [bsonToItem_itemToBson, hactive] at hstatus
  exact hclosed hstatus

/-- While the copies agree, the document of an open listing is there to be
closed. -/
theorem Agreeing.itemUpdateSucceeds (h : s.Agreeing) {o : ItemUpdateOutcomes}
    {id : UInt64} {old new : AuctionItem} (hupdate : o.update = .done)
    (hdel : ∀ applied, o.del ≠ .raised applied)
    (hold : s.house.auctionItems[id]? = some old)
    (hactive : old.status = .active) (hclosed : new.status ≠ .active)
    (hid : new.id = old.id) :
    s.db.ItemUpdateSucceeds o new := by
  obtain ⟨doc, hdoc, rfl⟩ := h.findAuction hold
  have hkeyed : new.id = id := hid.trans (h.orderly.wellFiled.keyed id _ hold)
  rw [← hkeyed] at hdoc
  exact itemUpdateSucceeds_of_document hupdate hdel hdoc hactive hclosed

variable {db : Database} {order : List AuctionDocument}
  {sellers : ℕ → ReadOutcome}

/-- A start that loads everything agrees with the documents. -/
theorem Starts.agreeing (hdistinct : (db.auctions.map AuctionDocument.id).Nodup)
    (hlast : ∀ doc ∈ db.auctions, doc.id.toUInt64 ≠ -1)
    (hstart : Starts db order none sellers s) : s.Agreeing := by
  have horderly := hstart.orderly hdistinct hlast
  obtain ⟨hperm, hdb, hloaded⟩ := restart_loaded False.elim hstart
  replace hdb : s.db = db := hdb
  refine ⟨horderly, ?_⟩
  apply Registry.agrees_of_loaded horderly.tidy.distinct
  · intro id item hitem
    obtain ⟨hmem, hid⟩ := hloaded.items id item hitem
    obtain ⟨doc, hdoc, rfl⟩ := mem_auctions_of_loaded hperm hmem
    refine ⟨doc, ?_, rfl, hid⟩
    rw [show s.book.records = s.db.auctions from rfl, hdb]
    exact hdoc
  · intro doc hdoc hnone
    rw [show s.book.records = s.db.auctions from rfl, hdb] at hdoc
    have hkept := hloaded.kept (bsonToItem doc)
      (List.mem_map_of_mem (hperm.mem_iff.mpr hdoc))
    rw [Std.ExtTreeMap.mem_iff_isSome_getElem?,
      show s.house.auctionItems[(bsonToItem doc).id]? = none from hnone] at hkept
    exact Bool.false_ne_true hkept

theorem agreeing_preserves [StdSort] :
    machine.Preserves
      (fun e => e.input.WritesDone ∧ e.before.Undisturbed e.input)
      Agreeing := by
  intro e hfires hcall h
  obtain ⟨hwrites, hundisturbed⟩ := hcall
  have hids := h.orderly.idsAdvance hfires hundisturbed
  have hg : (guarantees e).ids ∧ (guarantees e).writes := ⟨hids, hwrites⟩
  exact h.moves hg.1 hg.2 (step_moves hfires h.orderly.wellFiled)

end Server
end AuctionServer
