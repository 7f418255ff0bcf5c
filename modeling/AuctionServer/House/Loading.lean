import AuctionServer.House.Moves

/-!
# Starting a house

The constructor loop, one item at a time: what is in memory is what has been
loaded, the next id is above it, and every open listing is filed.  A start is
then the reload move, complete when the query delivers the whole collection.
-/

namespace AuctionServer

/-- The next id does not wrap around. -/
theorem lt_add_one_of_ne {id : UInt64} (h : id ≠ -1) : id < id + 1 := by
  grind

namespace AuctionHouse

/-- The house after the items of `loaded` went through the constructor loop. -/
structure Loaded (db : Database) (lookups : Prop) (loaded : List AuctionItem)
    (house : AuctionHouse) : Prop where
  items : ∀ id item, house.auctionItems[id]? = some item →
    item ∈ loaded ∧ item.id = id
  kept : ∀ item ∈ loaded, item.id ∈ house.auctionItems
  next : (∀ item ∈ loaded, item.id ≠ -1) →
    ∀ item ∈ loaded, item.id < house.nextAuctionId
  files : ∀ k i, house.Files k i → i ∈ house.auctionItems
  covered : lookups → Server.Covered { house, db }

theorem loaded_initial (db : Database) (lookups : Prop) :
    Loaded db lookups [] initial where
  items := by
    intro id item hitem
    simp [initial] at hitem
  kept := by simp
  next := by simp
  files := by
    intro k i hfiles
    exact (not_files_initial k i hfiles).elim
  covered := by
    intro _ id item hitem
    simp [initial] at hitem

variable {db : Database} {lookups : Prop} {loaded : List AuctionItem}
  {house house' : AuctionHouse} {seller : ReadOutcome} {item : AuctionItem}

/-- One turn that is not cut short. -/
theorem loadItem_ok
    (h : house.loadItem db seller item = (.ok (), house')) :
    house'.auctionItems = house.auctionItems.insert item.id item ∧
      (item.id ≠ -1 → house.nextAuctionId ≤ house'.nextAuctionId ∧
        item.id < house'.nextAuctionId) ∧
      ∃ keys, house.Adds house' keys item.id ∧
        (seller = .answered → db.BalancesReadable → item.status = .active →
          keys = listingKeys item (db.usernameOf item.sellerId)) := by
  rcases hupdate : (house.setItem item.id item).updateIndices db seller item
    with ⟨result, filed⟩
  cases result with
  | error e => simp [loadItem, hupdate] at h
  | ok u =>
      obtain ⟨hsame, keys, hadds, hall⟩ :=
        (house.setItem item.id item).updateIndices_cases db seller item
      rw [hupdate] at hsame hadds
      have hnext : filed.nextAuctionId = house.nextAuctionId := hsame.2
      have hitems : filed.auctionItems =
          house.auctionItems.insert item.id item := hsame.1
      have hkeys : ∃ keys, house.Adds filed keys item.id ∧
          (seller = .answered → db.BalancesReadable → item.status = .active →
            keys = listingKeys item (db.usernameOf item.sellerId)) :=
        ⟨keys, hadds, fun hseller hreadable hactive =>
          (hall hseller hreadable hactive).2⟩
      by_cases hle : house.nextAuctionId ≤ item.id
      · have heq : house' = { filed with nextAuctionId := item.id + 1 } := by
          simp only [loadItem, hupdate, hnext, if_pos hle] at h
          exact (Prod.mk.inj h).2.symm
        subst heq
        refine ⟨hitems, ?_, hkeys⟩
        intro hid
        have hlt : item.id < item.id + 1 := lt_add_one_of_ne hid
        exact ⟨UInt64.le_trans hle (UInt64.le_of_lt hlt), hlt⟩
      · have heq : house' = filed := by
          simp only [loadItem, hupdate, hnext, if_neg hle] at h
          exact (Prod.mk.inj h).2.symm
        subst heq
        refine ⟨hitems, ?_, hkeys⟩
        intro _
        rw [hnext]
        exact ⟨UInt64.le_refl _, UInt64.not_le.mp hle⟩

theorem Loaded.loadItem (hloaded : Loaded db lookups loaded house)
    (hlookups : lookups → seller = .answered ∧ db.BalancesReadable)
    (h : house.loadItem db seller item = (.ok (), house')) :
    Loaded db lookups (loaded ++ [item]) house' := by
  obtain ⟨hitems, hnext, keys, hadds, hkeys⟩ := loadItem_ok h
  have hmem : ∀ id, id ∈ house'.auctionItems ↔
      item.id = id ∨ id ∈ house.auctionItems := by
    intro id
    rw [hitems, Std.ExtTreeMap.mem_insert]
    simp
  refine ⟨?_, ?_, ?_, ?_, ?_⟩
  · intro id item' hitem'
    rw [hitems, Std.ExtTreeMap.getElem?_insert] at hitem'
    split at hitem'
    · next hid =>
        obtain rfl := Option.some.inj hitem'
        exact ⟨by simp, by simpa using hid⟩
    · obtain ⟨hold, hid⟩ := hloaded.items id item' hitem'
      exact ⟨List.mem_append_left _ hold, hid⟩
  · intro item' hitem'
    rw [hmem]
    rcases List.mem_append.mp hitem' with hold | hnew
    · exact Or.inr (hloaded.kept item' hold)
    · obtain rfl : item' = item := by simpa using hnew
      exact Or.inl rfl
  · intro hids item' hitem'
    obtain ⟨hle, hlt⟩ := hnext (hids item (by simp))
    rcases List.mem_append.mp hitem' with hold | hnew
    · have hbelow := hloaded.next
        (fun i hi => hids i (List.mem_append_left _ hi)) item' hold
      exact UInt64.lt_of_lt_of_le hbelow hle
    · obtain rfl : item' = item := by simpa using hnew
      exact hlt
  · intro k i hfiles
    rw [hmem]
    rcases (hadds k i).mp hfiles with hold | ⟨-, rfl⟩
    · exact Or.inr (hloaded.files k i hold)
    · exact Or.inl rfl
  · intro hl id item' hitem' hactive k hk
    simp only [hitems, Std.ExtTreeMap.getElem?_insert] at hitem'
    rw [hadds]
    split at hitem'
    · next hid =>
        obtain rfl := Option.some.inj hitem'
        obtain ⟨hseller, hreadable⟩ := hlookups hl
        have hid' : item.id = id := by simpa using hid
        rw [hkeys hseller hreadable hactive]
        exact Or.inr ⟨hk, hid'.symm⟩
    · exact Or.inl (hloaded.covered hl id item' hitem' hactive k hk)

/-- What survives each turn survives the constructor loop. -/
theorem loadItems_keeps {P : List AuctionItem → AuctionHouse → Prop}
    {items : List AuctionItem} {sellers : ℕ → ReadOutcome}
    (hturn : ∀ loaded n item house house', P loaded house →
      AuctionHouse.loadItem house db (sellers n) item = (.ok (), house') →
        P (loaded ++ [item]) house')
    (h : P loaded house) (hload : loadItems db sellers items house = .ok house') :
    P (loaded ++ items) house' := by
  induction items generalizing sellers loaded house with
  | nil =>
      obtain rfl := Except.ok.inj hload
      simpa using h
  | cons item items ih =>
      rcases hitem : house.loadItem db (sellers 0) item with ⟨result, next⟩
      cases result with
      | error e => simp [AuctionHouse.loadItems, hitem] at hload
      | ok u =>
          simp only [AuctionHouse.loadItems, hitem] at hload
          have hrest := ih (fun loaded n => hturn loaded (n + 1))
            (hturn loaded 0 item house next h hitem) hload
          simpa using hrest

theorem Loaded.loadItems {items : List AuctionItem}
    {sellers : ℕ → ReadOutcome} (hloaded : Loaded db lookups loaded house)
    (hlookups : lookups → (∀ n, sellers n = .answered) ∧ db.BalancesReadable)
    (h : loadItems db sellers items house = .ok house') :
    Loaded db lookups (loaded ++ items) house' := by
  refine loadItems_keeps ?_ hloaded h
  intro loaded n item house house' hloaded hitem
  exact hloaded.loadItem
    (fun hl => ⟨(hlookups hl).1 n, (hlookups hl).2⟩) hitem

end AuctionHouse

namespace Database

/-- The start-up query delivers only documents of the collection. -/
theorem mem_loadAllAuctionItems {order : List AuctionDocument}
    {failsAfter : Option ℕ} {item : AuctionItem}
    (h : item ∈ loadAllAuctionItems order failsAfter) :
    ∃ doc ∈ order, bsonToItem doc = item := by
  cases failsAfter with
  | none => exact List.mem_map.mp h
  | some n =>
      obtain ⟨doc, hdoc, heq⟩ := List.mem_map.mp h
      exact ⟨doc, List.mem_of_mem_take hdoc, heq⟩

end Database

namespace Server

/-- The query delivers a document with the greatest stored id, and that id can
be counted past. -/
def SeesLastId (db : Database) (order : List AuctionDocument)
    (failsAfter : Option ℕ) : Prop :=
  (∀ doc ∈ db.auctions, doc.id.toUInt64 ≠ -1) ∧
    ∀ doc ∈ db.auctions, ∃ item ∈ Database.loadAllAuctionItems order failsAfter,
      doc.id.toUInt64 ≤ item.id

instance (db : Database) (order : List AuctionDocument)
    (failsAfter : Option ℕ) : Decidable (SeesLastId db order failsAfter) :=
  inferInstanceAs (Decidable (_ ∧ _))

theorem sees_last_of_complete {db : Database} {order : List AuctionDocument}
    (hperm : order.Perm db.auctions)
    (hlast : ∀ doc ∈ db.auctions, doc.id.toUInt64 ≠ -1) :
    SeesLastId db order none := by
  refine ⟨hlast, ?_⟩
  intro doc hdoc
  have hloaded : bsonToItem doc ∈ Database.loadAllAuctionItems order none :=
    List.mem_map_of_mem (hperm.mem_iff.mpr hdoc)
  exact ⟨bsonToItem doc, hloaded, UInt64.le_refl _⟩

variable {s s' : Server} {order : List AuctionDocument} {failsAfter : Option ℕ}
  {sellers : ℕ → ReadOutcome}

theorem restart_eq_some :
    s.restart order failsAfter sellers = some s' ↔
      order.Perm s.db.auctions ∧ ∃ house,
        AuctionHouse.construct s.db order failsAfter sellers = .ok house ∧
          s' = { s with house } := by
  rw [← List.isPerm_iff]
  by_cases hperm : order.isPerm s.db.auctions = true
  · cases hhouse : AuctionHouse.construct s.db order failsAfter sellers with
    | error e => simp [restart, hperm, hhouse]
    | ok house => simp [restart, hperm, hhouse, eq_comm]
  · simp [restart, hperm]

/-- What a start leaves is what the query delivered of this database. -/
theorem restart_loaded {lookups : Prop}
    (hlookups : lookups →
      (∀ n, sellers n = .answered) ∧ s.db.BalancesReadable)
    (h : s.restart order failsAfter sellers = some s') :
    order.Perm s.db.auctions ∧ s'.db = s.db ∧
      AuctionHouse.Loaded s.db lookups
        (Database.loadAllAuctionItems order failsAfter) s'.house := by
  obtain ⟨hperm, house, hhouse, rfl⟩ := restart_eq_some.mp h
  have hloaded :=
    (AuctionHouse.loaded_initial s.db lookups).loadItems hlookups hhouse
  rw [List.nil_append] at hloaded
  exact ⟨hperm, rfl, hloaded⟩

theorem mem_auctions_of_loaded (hperm : order.Perm s.db.auctions)
    {item : AuctionItem}
    (hitem : item ∈ Database.loadAllAuctionItems order failsAfter) :
    ∃ doc ∈ s.db.auctions, bsonToItem doc = item := by
  obtain ⟨doc, hdoc, heq⟩ := Database.mem_loadAllAuctionItems hitem
  exact ⟨doc, hperm.mem_iff.mp hdoc, heq⟩

/-- A start that sees the greatest stored id counts past every stored id. -/
theorem restart_fresh (hids : SeesLastId s.db order failsAfter)
    (h : s.restart order failsAfter sellers = some s') :
    ∀ doc ∈ s.db.auctions, doc.id.toUInt64 < s'.house.nextAuctionId := by
  obtain ⟨hperm, -, hloaded⟩ := restart_loaded False.elim h
  obtain ⟨hlast, hsees⟩ := hids
  have hnext := hloaded.next (by
    intro item hitem
    obtain ⟨doc, hdoc, rfl⟩ := mem_auctions_of_loaded hperm hitem
    exact hlast doc hdoc)
  intro doc hdoc
  obtain ⟨item, hitem, hle⟩ := hsees doc hdoc
  exact UInt64.lt_of_le_of_lt hle (hnext item hitem)

/-- A start is a reload of what the query delivered. -/
theorem restart_move {g : Guarantees}
    (hlookups : g.lookups →
      (∀ n, sellers n = .answered) ∧ s.db.BalancesReadable)
    (hwrites : g.writes → failsAfter = none)
    (hids : g.ids → SeesLastId s.db order failsAfter)
    (h : s.restart order failsAfter sellers = some s') : Move g s s' := by
  obtain ⟨hperm, hdb, hloaded⟩ := restart_loaded hlookups h
  refine .reload (fun item hitem => mem_auctions_of_loaded hperm hitem)
    hloaded.items hloaded.kept (fun hi => restart_fresh (hids hi) h)
    hloaded.files ?_ ?_ hdb
  · intro hl
    have hcovered := hloaded.covered hl
    rw [← hdb] at hcovered
    exact hcovered
  · intro hw doc hdoc
    obtain rfl := hwrites hw
    exact List.mem_map_of_mem (hperm.mem_iff.mpr hdoc)

end Server
end AuctionServer
