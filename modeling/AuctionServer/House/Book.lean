import AuctionServer.House.Runs
import AuctionServer.Support.Registry

/-!
# The house as a registry

The listings in memory, the next id and the stored documents form a registry,
and every move of the server is a step of it.  What the registry keeps through
lost writes and reloads is therefore kept by every run.
-/

namespace AuctionServer

open Relation (ReflTransGen)

instance uint64_lt_trans : IsTrans UInt64 (· < ·) :=
  ⟨fun _ _ _ => UInt64.lt_trans⟩

/-- Listings written as documents; an active listing is open. -/
def format : Registry.Format UInt64 AuctionItem AuctionDocument where
  keyOf := AuctionItem.id
  isOpen := fun item => item.status = .active
  encode := itemToBson
  decode := bsonToItem
  decode_encode := bsonToItem_itemToBson

namespace Server

/-- The registry a server keeps. -/
def book (s : Server) : Registry.Book UInt64 AuctionItem AuctionDocument where
  entries := fun id => s.house.auctionItems[id]?
  next := s.house.nextAuctionId
  records := s.db.auctions

theorem setAuction_eq (db : Database) (item : AuctionItem) :
    (db.setAuction item).auctions =
      Collection.updateOne format.key item.id (fun _ => itemToBson item)
        db.auctions := by
  apply Collection.updateOne_congr
  intro doc
  exact eq_toInt64_iff

theorem entries_insert (s : Server) (id : UInt64) (item : AuctionItem) :
    (fun i => (s.house.auctionItems.insert id item)[i]?) =
      Function.update s.book.entries id (some item) := by
  funext i
  rcases eq_or_ne i id with rfl | hne
  · simp
  · rw [Function.update_of_ne hne, Std.ExtTreeMap.getElem?_insert]
    simp [hne.symm, book]

variable {g : Guarantees} {s s' : Server}

/-- Every move is a step of the registry, or leaves it alone. -/
theorem Move.book (hwell : s.WellFiled) (hids : g.ids) (hmove : Move g s s') :
    ReflTransGen (Registry.Step format g.writes) s.book s'.book := by
  cases hmove with
  | touch hhouse hauctions _ =>
      have heq : s'.book = s.book := by
        simp [Server.book, hhouse, hauctions]
      rw [heq]
  | @assign item kept applied keys hid _ hkept hwrites hlast hnext hitems _ _ hdb =>
      have hkey : format.keyOf item = s.book.next := hid
      have hlt : s.book.next < item.id + 1 := by
        rw [← hkey]
        exact lt_add_one_of_ne (hlast hids)
      have hstep := Registry.Step.assign hkey hlt hkept hwrites
      refine ReflTransGen.single ?_
      convert hstep using 1
      apply Registry.Book.ext
      · cases kept with
        | false =>
            simp only [Bool.false_eq_true, if_false] at hitems ⊢
            simp [Server.book, hitems]
        | true =>
            simp only [if_true] at hitems ⊢
            rw [← hkey]
            simp only [Server.book, hitems]
            exact entries_insert s item.id item
      · exact hnext
      · cases applied with
        | false => simp [Server.book, hdb]
        | true => simp [Server.book, hdb, format]
  | @close id old new applied hold hactive hclosed hid hwrites hhouse hauctions _ =>
      have hkey : format.keyOf new = id := hid.trans (hwell.keyed id old hold)
      have hstep := Registry.Step.close (show s.book.entries id = some old from hold)
        (show format.isOpen old from hactive) hclosed hkey hwrites
      refine ReflTransGen.single ?_
      convert hstep using 1
      apply Registry.Book.ext
      · simp only [Server.book, hhouse, AuctionHouse.setItem]
        exact entries_insert s id new
      · simp [Server.book, hhouse, AuctionHouse.setItem]
      · cases applied with
        | false => simp [Server.book, hauctions]
        | true =>
            simp only [if_true] at hauctions ⊢
            rw [show s'.book.records = s'.db.auctions from rfl, hauctions,
              setAuction_eq]
            rw [← hkey]
            rfl
  | withdraw _ _ hsame _ hdb =>
      have heq : s'.book = s.book := by
        simp [Server.book, hsame.1, hsame.2, hdb]
      rw [heq]
  | @reload loaded hfrom hitems hloaded hlast _ _ hall hdb =>
      have hrecords : s'.book.records = s.book.records := by
        simp [Server.book, hdb]
      have hstep : Registry.Step format g.writes s.book
          { entries := s'.book.entries, next := s'.book.next,
            records := s.book.records } := by
        refine .reload ?_ (hlast hids) ?_
        · intro id item hitem
          obtain ⟨hmem, hid⟩ := hitems id item hitem
          obtain ⟨doc, hdoc, rfl⟩ := hfrom item hmem
          exact ⟨doc, hdoc, rfl, hid⟩
        · intro hw doc hdoc hnone
          have hkept := hloaded _ (hall hw doc hdoc)
          rw [Std.ExtTreeMap.mem_iff_isSome_getElem?] at hkept
          rw [show s'.house.auctionItems[(bsonToItem doc).id]? = none from hnone]
            at hkept
          exact Bool.false_ne_true hkept
      rw [← hrecords] at hstep
      exact ReflTransGen.single hstep

theorem book_moves (hwell : s.WellFiled) (hids : g.ids)
    (hmoves : ReflTransGen (Move g) s s') :
    ReflTransGen (Registry.Step format g.writes) s.book s'.book := by
  induction hmoves with
  | refl => exact ReflTransGen.refl
  | tail hmoves hmove ih =>
      exact ih.trans (hmove.book (hwell.moves hmoves) hids)

/-- Every call that neither wraps the ids around nor misses the greatest
stored id is a sequence of registry steps. -/
theorem step_book [StdSort] {e : ServerEvent} (hfires : machine.Fires e)
    (hwell : e.before.WellFiled) (hids : e.before.IdsAdvance e.input) :
    ReflTransGen (Registry.Step format e.input.WritesDone) e.before.book
      e.after.book := by
  have hmoves := step_moves hfires hwell
  have hg : (guarantees e).ids := hids
  exact book_moves hwell hg hmoves

end Server
end AuctionServer
