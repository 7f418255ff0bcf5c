import AuctionServer.House.Agreement

/-!
# Open listings are stored

A lost write can only leave a document open whose listing is closed in memory.
So as long as every start sees the greatest stored id, each open listing in
memory is what its document says, whatever else the store did.
-/

namespace AuctionServer

open Relation (ReflTransGen)

namespace Server

/-- The server is in order, and its open listings are stored. -/
structure Stored (s : Server) : Prop where
  orderly : s.Orderly
  backed : Registry.Backed format s.book

variable {s s' : Server}

theorem Stored.moves {g : Guarantees} (h : s.Stored) (hids : g.ids)
    (hmoves : ReflTransGen (Move g) s s') : s'.Stored := by
  have hsteps := book_moves h.orderly.wellFiled hids hmoves
  exact ⟨⟨h.orderly.wellFiled.moves hmoves, h.orderly.tidy.steps hsteps⟩,
    h.backed.steps h.orderly.tidy hsteps⟩

/-- The document of an open listing says what memory says. -/
theorem Stored.document (h : s.Stored) {id : UInt64} {item : AuctionItem}
    (hitem : s.house.auctionItems[id]? = some item)
    (hactive : item.status = .active) :
    ∃ doc, s.db.findAuction id = some doc ∧ bsonToItem doc = item := by
  obtain ⟨doc, hdoc, hkey, hdecode⟩ := h.backed id item hitem
  exact ⟨doc, h.orderly.findAuction_eq_some_iff.mpr ⟨hdoc, hkey⟩,
    hdecode hactive⟩

/-- Every document with the id of an open listing is its document. -/
theorem Stored.decode (h : s.Stored) {id : UInt64} {item : AuctionItem}
    (hitem : s.house.auctionItems[id]? = some item)
    (hactive : item.status = .active) {doc : AuctionDocument}
    (hdoc : doc ∈ s.db.auctions) (hkey : format.key doc = id) :
    bsonToItem doc = item := by
  obtain ⟨doc', hfind, hdecode⟩ := h.document hitem hactive
  have hfound := h.orderly.findAuction_eq_some_iff.mpr ⟨hdoc, hkey⟩
  obtain rfl : doc' = doc := Option.some.inj (hfind.symm.trans hfound)
  exact hdecode

theorem Stored.itemUpdateSucceeds (h : s.Stored) {o : ItemUpdateOutcomes}
    (ho : o.Answered) {id : UInt64} {old new : AuctionItem}
    (hold : s.house.auctionItems[id]? = some old)
    (hactive : old.status = .active) (hclosed : new.status ≠ .active)
    (hid : new.id = old.id) : s.db.ItemUpdateSucceeds o new := by
  obtain ⟨doc, hdoc, rfl⟩ := h.document hold hactive
  have hkeyed : new.id = id := hid.trans (h.orderly.wellFiled.keyed id _ hold)
  rw [← hkeyed] at hdoc
  exact itemUpdateSucceeds_of_document ho.1 ho.2 hdoc hactive hclosed

/-- The next id is not the id of a listing. -/
theorem Stored.next_unused (h : s.Stored) :
    s.house.auctionItems[s.house.nextAuctionId]? = none :=
  h.backed.next_unused h.orderly.tidy.fresh

variable {db : Database} {order : List AuctionDocument}
  {failsAfter : Option ℕ} {sellers : ℕ → ReadOutcome}

theorem Starts.stored (hdistinct : (db.auctions.map AuctionDocument.id).Nodup)
    (hlast : SeesLastId db order failsAfter)
    (hstart : Starts db order failsAfter sellers s) : s.Stored := by
  refine ⟨hstart.orderly_of_seesLastId hdistinct hlast, ?_⟩
  obtain ⟨hperm, hdb, hloaded⟩ := restart_loaded False.elim hstart
  replace hdb : s.db = db := hdb
  intro id item hitem
  obtain ⟨hmem, hid⟩ := hloaded.items id item hitem
  obtain ⟨doc, hdoc, rfl⟩ := mem_auctions_of_loaded hperm hmem
  refine ⟨doc, ?_, hid, fun _ => rfl⟩
  rw [show s.book.records = s.db.auctions from rfl, hdb]
  exact hdoc

theorem stored_preserves [StdSort] :
    machine.Preserves (fun e => e.before.IdsAdvance e.input) Stored := by
  intro e hfires hids h
  have hg : (guarantees e).ids := hids
  exact h.moves hg (step_moves hfires h.orderly.wellFiled)

end Server
end AuctionServer
