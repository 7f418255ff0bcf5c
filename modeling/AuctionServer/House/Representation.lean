import AuctionServer.House.Agreement

/-!
# The indices represent the listings

Without store errors the four indices file exactly the open listings, each
under its type, its price, the name of its seller and, when this process
registered it, its keywords.  Between the two loops of a sweep the listings
that have just expired are still filed; they are carried along as pending.
-/

namespace AuctionServer

open Relation (ReflTransGen)
open AuctionHouse (SameListings listingKeys removalKeys keywordsOf)

/-- The keys a listing belongs under. -/
def properKeys (registered : Set UInt64) (item : AuctionItem)
    (name : Option Bytes) : Set IndexKey :=
  {k | k ∈ listingKeys item name ∨
    (item.id ∈ registered ∧ ∃ w ∈ keywordsOf item.item, k = .keyword w)}

/-- Nothing a listing is filed under differs. -/
structure SameKeys (old new : AuctionItem) : Prop where
  id : new.id = old.id
  seller : new.sellerId = old.sellerId
  price : new.price = old.price
  type : new.item.type = old.item.type
  name : new.item.name = old.item.name

theorem SameKeys.properKeys_eq {old new : AuctionItem} (h : SameKeys old new)
    (registered : Set UInt64) (name : Option Bytes) :
    properKeys registered new name = properKeys registered old name := by
  have hkeywords : keywordsOf new.item = keywordsOf old.item := by
    rw [keywordsOf, keywordsOf, h.name]
  simp only [properKeys, listingKeys, h.id, h.price, h.type, hkeywords]

/-- A listing registered here belongs under its keywords as well. -/
theorem properKeys_insert_self (registered : Set UInt64) (item : AuctionItem)
    (name : Option Bytes) :
    properKeys (insert item.id registered) item name =
      listingKeys item name ∪ {k | ∃ w ∈ keywordsOf item.item, k = .keyword w} := by
  ext k
  simp [properKeys]

theorem properKeys_insert_of_ne {registered : Set UInt64} {id : UInt64}
    {item : AuctionItem} (hne : item.id ≠ id) (name : Option Bytes) :
    properKeys (insert id registered) item name =
      properKeys registered item name := by
  simp [properKeys, hne]

theorem properKeys_subset_removalKeys (registered : Set UInt64)
    (item : AuctionItem) (name : Option Bytes) :
    properKeys registered item name ⊆ removalKeys item name := by
  rintro k (hk | ⟨-, w, -, rfl⟩)
  · exact Or.inl hk
  · exact Or.inr ⟨w, rfl⟩

namespace Server

/-- The indices file exactly the listings that are open or pending, whose
sellers can be looked up. -/
structure Represented (s : Server) (registered pending : Set UInt64) :
    Prop where
  files : ∀ k id, s.house.Files k id ↔
    ∃ item, s.house.auctionItems[id]? = some item ∧
      (item.status = .active ∨ id ∈ pending) ∧
      k ∈ properKeys registered item (s.db.usernameOf item.sellerId)
  readable : ∀ id item, s.house.auctionItems[id]? = some item →
    item.status = .active ∨ id ∈ pending → s.db.Readable item.sellerId
  noEmpty : s.house.NoEmptyBucket

variable {s s' : Server} {registered pending : Set UInt64}

theorem Represented.touch (h : s.Represented registered pending)
    (hhouse : s'.house = s.house)
    (hnames : ∀ u, s'.db.usernameOf u = s.db.usernameOf u)
    (hreadable : ∀ u, s.db.Readable u → s'.db.Readable u) :
    s'.Represented registered pending := by
  refine ⟨?_, ?_, by rw [hhouse]; exact h.noEmpty⟩
  · intro k id
    simp only [hhouse, hnames]
    exact h.files k id
  · intro id item hitem hstatus
    rw [hhouse] at hitem
    exact hreadable _ (h.readable id item hitem hstatus)

/-- A closed listing that is still filed is pending. -/
theorem Represented.close (h : s.Represented registered pending) {id : UInt64}
    {old new : AuctionItem} (hold : s.house.auctionItems[id]? = some old)
    (hactive : old.status = .active) (hsame : SameKeys old new)
    (hhouse : s'.house = s.house.setItem id new)
    (husers : s'.db.users = s.db.users) :
    s'.Represented registered (insert id pending) := by
  have hnames : ∀ u, s'.db.usernameOf u = s.db.usernameOf u :=
    (Database.SameNames.of_users husers).1
  refine ⟨?_, ?_, ?_⟩
  · intro k i
    rw [hhouse, AuctionHouse.files_setItem, h.files k i]
    simp only [hnames]
    rcases eq_or_ne id i with rfl | hne
    · rw [setItem_self, hold]
      simp [hactive, hsame.properKeys_eq, hsame.seller]
    · rw [setItem_of_ne _ _ hne]
      simp [Set.mem_insert_iff, hne.symm]
  · intro i item hitem hstatus
    rw [hhouse] at hitem
    rcases eq_or_ne id i with rfl | hne
    · rw [setItem_self] at hitem
      obtain rfl := Option.some.inj hitem
      rw [hsame.seller]
      exact (h.readable id old hold (Or.inl hactive)).of_users husers
    · rw [setItem_of_ne _ _ hne] at hitem
      rw [Set.mem_insert_iff, or_iff_right hne.symm] at hstatus
      exact (h.readable i item hitem hstatus).of_users husers
  · rw [hhouse]
    exact h.noEmpty.setItem id new

/-- An id without an open listing is no longer pending once it is withdrawn
from the keys of its listing, if it has one. -/
theorem Represented.settle_pending (h : s.Represented registered pending)
    {id : UInt64} (hclosed : s.ClosedAt id) {house : AuctionHouse}
    (hsame : SameListings s.house house) (hnoEmpty : house.NoEmptyBucket)
    (hfiles : ∀ k i, house.Files k i ↔ s.house.Files k i ∧ i ≠ id) :
    Represented { s with house } registered (pending \ {id}) := by
  refine ⟨?_, ?_, hnoEmpty⟩
  · intro k i
    rw [hfiles k i, h.files k i]
    simp only [hsame.1]
    constructor
    · rintro ⟨⟨item, hitem, hstatus, hk⟩, hne⟩
      refine ⟨item, hitem, ?_, hk⟩
      exact hstatus.imp_right fun hpending => ⟨hpending, hne⟩
    · rintro ⟨item, hitem, hstatus, hk⟩
      refine ⟨⟨item, hitem, hstatus.imp_right And.left, hk⟩, ?_⟩
      rintro rfl
      rcases hstatus with hactive | ⟨-, hne⟩
      · exact hclosed item hitem hactive
      · exact hne rfl
  · intro i item hitem hstatus
    simp only [hsame.1] at hitem
    exact h.readable i item hitem (hstatus.imp_right And.left)

/-- Removing a closed listing from the indices ends its being pending. -/
theorem Represented.withdraw (h : s.Represented registered pending)
    (hwell : s.WellFiled) {id : UInt64} {item : AuctionItem}
    (hitem : s.house.auctionItems[id]? = some item)
    (hclosed : item.status ≠ .active)
    (hreadable : s.db.Readable item.sellerId) :
    ∃ house, s.house.removeFromIndices s.db .answered item = (.ok (), house) ∧
      SameListings s.house house ∧
      Represented { s with house } registered (pending \ {id}) := by
  obtain ⟨info, hinfo, hname⟩ := hreadable.lookup
  obtain ⟨house, heq, hsame, hwithdraws⟩ :=
    AuctionHouse.removeFromIndices_ok s.house hinfo
  have hnoEmpty := h.noEmpty.removeFromIndices s.db .answered item
  rw [heq] at hnoEmpty
  have hkey : item.id = id := hwell.keyed id item hitem
  have hclosedAt : s.ClosedAt id := by
    intro item' hitem'
    obtain rfl := Option.some.inj (hitem.symm.trans hitem')
    exact hclosed
  refine ⟨house, heq, hsame, h.settle_pending hclosedAt hsame hnoEmpty ?_⟩
  intro k i
  rw [hwithdraws k i, hkey, hname]
  refine and_congr_right fun hfiled => ?_
  rw [not_and']
  constructor
  · rintro hnot rfl
    obtain ⟨item', hitem', -, hk⟩ := (h.files k i).mp hfiled
    obtain rfl := Option.some.inj (hitem.symm.trans hitem')
    exact hnot rfl (properKeys_subset_removalKeys registered _ _ hk)
  · intro hne heq
    exact (hne heq).elim

/-! ## Closing a listing -/

/-- Closing a listing of an agreeing server leaves the indices exact. -/
theorem Represented.afterClose (h : s.Represented registered ∅)
    (hagreeing : s.Agreeing) {o : ItemUpdateOutcomes} (ho : o.Answered)
    {id : UInt64} {old new : AuctionItem}
    (hold : s.house.auctionItems[id]? = some old)
    (hactive : old.status = .active) (hclosed : new.status ≠ .active)
    (hsame : SameKeys old new) :
    (s.afterClose o .answered id new).Represented registered ∅ := by
  have hsucceeds := hagreeing.itemUpdateSucceeds ho.1 ho.2 hold hactive hclosed
    hsame.id
  let closed : Server :=
    { house := s.house.setItem id new
      db := (s.db.updateAuctionItem o new).2 }
  have hpending : closed.Represented registered (insert id ∅) :=
    h.close hold hactive hsame rfl (Database.updateAuctionItem_users s.db o new)
  have hwell : closed.WellFiled := by
    have hmove : Move ⟨False, False, False⟩ s closed :=
      close_move hold hactive hclosed hsame.id False.elim
    exact hagreeing.orderly.wellFiled.move hmove
  have hself : closed.house.auctionItems[id]? = some new :=
    setItem_self s.house id new
  obtain ⟨house, hremove, -, hrepresented⟩ := hpending.withdraw hwell hself
    hclosed (hpending.readable id new hself (Or.inr (Set.mem_insert id ∅)))
  rw [Set.insert_sdiff_of_mem _ (Set.mem_singleton id), Set.empty_sdiff]
    at hrepresented
  have hafter : s.afterClose o .answered id new = { closed with house } := by
    rw [Server.afterClose, Database.updateAuctionItem_fst_eq_true.mpr hsucceeds]
    simp only
    rw [hremove]
  rw [hafter]
  exact hrepresented

/-! ## Registration -/

/-- A stored registration of a readable seller adds the new listing, and files
it under all of its keys. -/
theorem registerItem_files (hnoEmpty : s.house.NoEmptyBucket)
    {o : RegisterOutcomes} (hinsert : o.insert = .done)
    (hseller : o.seller = .answered) (now : Time) {sellerId : UInt32}
    (item : Item) (price : UInt32) (hreadable : s.db.Readable sellerId)
    (registered : Set UInt64) :
    ∃ house, s.registerItem o now sellerId item price =
        (.ok s.house.nextAuctionId,
          { house, db := s.stored now sellerId item price }) ∧
      house.auctionItems = s.house.auctionItems.insert s.house.nextAuctionId
        (newListing s.house.nextAuctionId now sellerId item price) ∧
      s.house.Adds house
        (properKeys (insert s.house.nextAuctionId registered)
          (newListing s.house.nextAuctionId now sellerId item price)
          (s.db.usernameOf sellerId)) s.house.nextAuctionId ∧
      house.NoEmptyBucket := by
  let id := s.house.nextAuctionId
  let listing := newListing id now sellerId item price
  let db := s.stored now sellerId item price
  have hreadable' : db.Readable sellerId := hreadable.of_users rfl
  obtain ⟨info, hinfo, hname⟩ := hreadable'.lookup
  have haccepted : (s.accepted now sellerId item price).NoEmptyBucket :=
    ⟨hnoEmpty.type, hnoEmpty.seller, hnoEmpty.price, hnoEmpty.keyword⟩
  obtain ⟨house, hfiling, hsame, -, hadds⟩ := AuctionHouse.updateIndices_ok
    (s.accepted now sellerId item price)
    (show listing.status = .active from rfl) hinfo
  have hfiled := haccepted.updateIndices db .answered listing
  rw [hfiling] at hfiled
  rw [← hseller] at hfiling
  have heq := registerItem_of_filing s now sellerId item price hinsert hfiling
  rw [if_pos rfl] at heq
  obtain ⟨hsame', hadds'⟩ := house.indexItemKeywords_adds id item
  refine ⟨house.indexItemKeywords id item, heq, ?_, ?_,
    hfiled.indexItemKeywords id item⟩
  · rw [hsame'.1, hsame.1]
    rfl
  · have hkeys : properKeys (insert id registered) listing
        (s.db.usernameOf sellerId) =
        listingKeys listing (db.usernameOf sellerId) ∪
          {k | ∃ w ∈ keywordsOf item, k = .keyword w} :=
      properKeys_insert_self registered listing _
    rw [hkeys, ← hname]
    exact hadds.trans hadds'

/-- A stored registration of a readable seller leaves the indices exact. -/
theorem Represented.register (h : s.Represented registered ∅)
    (hwell : s.WellFiled)
    (hnew : s.house.nextAuctionId ∉ s.house.auctionItems)
    {o : RegisterOutcomes} (hinsert : o.insert = .done)
    (hseller : o.seller = .answered) (now : Time) {sellerId : UInt32}
    (item : Item) (price : UInt32) (hreadable : s.db.Readable sellerId) :
    (s.registerItem o now sellerId item price).1 =
        .ok s.house.nextAuctionId ∧
      (s.registerItem o now sellerId item price).2.Represented
        (insert s.house.nextAuctionId registered) ∅ := by
  obtain ⟨house, heq, hitems, hadds, hnoEmpty⟩ := registerItem_files h.noEmpty
    hinsert hseller now item price hreadable registered
  rw [heq]
  refine ⟨rfl, ?_, ?_, hnoEmpty⟩
  · intro k i
    show house.Files k i ↔ ∃ item', house.auctionItems[i]? = some item' ∧
      (item'.status = .active ∨ i ∈ (∅ : Set UInt64)) ∧
      k ∈ properKeys (insert s.house.nextAuctionId registered) item'
        (s.db.usernameOf item'.sellerId)
    rw [hadds k i, hitems, Std.ExtTreeMap.getElem?_insert]
    rcases eq_or_ne s.house.nextAuctionId i with rfl | hne
    · -- The new listing was not filed before.
      have hunfiled : ¬ s.house.Files k s.house.nextAuctionId := fun hk =>
        hnew (hwell.known k _ hk)
      simp [hunfiled, newListing]
    · have hkept : ∀ item', s.house.auctionItems[i]? = some item' →
          properKeys (insert s.house.nextAuctionId registered) item'
              (s.db.usernameOf item'.sellerId) =
            properKeys registered item' (s.db.usernameOf item'.sellerId) := by
        intro item' hitem'
        apply properKeys_insert_of_ne
        rw [hwell.keyed i item' hitem']
        exact hne.symm
      rw [if_neg (by simpa using hne), h.files k i]
      constructor
      · rintro (⟨item', hitem', hstatus, hk⟩ | ⟨-, rfl⟩)
        · exact ⟨item', hitem', hstatus, by rw [hkept item' hitem']; exact hk⟩
        · exact (hne rfl).elim
      · rintro ⟨item', hitem', hstatus, hk⟩
        exact Or.inl ⟨item', hitem', hstatus, by
          rw [← hkept item' hitem']; exact hk⟩
  · intro i item' hitem' hstatus
    rw [hitems, Std.ExtTreeMap.getElem?_insert] at hitem'
    split at hitem'
    · obtain rfl := Option.some.inj hitem'
      exact hreadable.of_users rfl
    · exact (h.readable i item' hitem' hstatus).of_users rfl

end Server
end AuctionServer
