import AuctionServer.House.CacheBlind
import AuctionServer.House.Occupied

/-!
# Servers that differ in unset fields

A registration leaves the type, the rarity and the level of its item unset, and
a listing read from the search cache comes back with more fields unset.  Two
servers are alike up to the listings of a set of ids when they differ in
nothing but the first three fields of these, in memory, in the documents and in
the type index.  Every operation keeps that, and answers alike, as long as no
search asks for a type while one of these listings can be found by it.
-/

namespace AuctionServer

/-! ## Listings and documents -/

/-- The item without the fields a registration leaves unset. -/
def Item.blank (item : Item) : Item :=
  { item with type := 0, rarity := 0, level := 0 }

/-- The listing without these fields. -/
def AuctionItem.blank (listing : AuctionItem) : AuctionItem :=
  { listing with item := listing.item.blank }

/-- These fields as they are stored. -/
structure StoredFields where
  type : Int32
  rarity : Int32
  level : Int32

/-- The document without these fields. -/
def AuctionDocument.blank (doc : AuctionDocument) : AuctionDocument :=
  { doc with item := { doc.item with type := 0, rarity := 0, level := 0 } }

/-- These fields of a document. -/
def AuctionDocument.stored (doc : AuctionDocument) : StoredFields where
  type := doc.item.type
  rarity := doc.item.rarity
  level := doc.item.level

theorem itemToBson_blank (listing : AuctionItem) :
    (itemToBson listing).blank = itemToBson listing.blank := rfl

theorem document_eq_iff {doc doc' : AuctionDocument} :
    doc = doc' ↔ doc.blank = doc'.blank ∧ doc.stored = doc'.stored := by
  constructor
  · rintro rfl
    exact ⟨rfl, rfl⟩
  · obtain ⟨id, sellerId, buyerId, price, status, registered, expires, sold, item⟩ :=
      doc
    obtain ⟨id', sellerId', buyerId', price', status', registered', expires',
      sold', item'⟩ := doc'
    obtain ⟨itemId, name, description, type, rarity, level, ownerId, attributes⟩ :=
      item
    obtain ⟨itemId', name', description', type', rarity', level', ownerId',
      attributes'⟩ := item'
    simp only [AuctionDocument.blank, AuctionDocument.stored,
      AuctionDocument.mk.injEq, ItemDocument.mk.injEq, StoredFields.mk.injEq]
    tauto

theorem AuctionDocument.id_of_blank {doc doc' : AuctionDocument}
    (h : doc.blank = doc'.blank) : doc.id = doc'.id := by
  have hid := congrArg AuctionDocument.id h
  exact hid

/-- Two listings of one id that differ in unset fields at most, and not at all
unless the id is one of the set. -/
structure AuctionItem.Alike (ids : Set UInt64) (id : UInt64)
    (a b : AuctionItem) : Prop where
  blank : a.blank = b.blank
  fixed : id ∉ ids → a = b

/-- The same for documents. -/
structure AuctionDocument.Alike (ids : Set UInt64) (doc doc' : AuctionDocument) :
    Prop where
  blank : doc.blank = doc'.blank
  fixed : doc.id.toUInt64 ∉ ids → doc = doc'

variable {ids : Set UInt64} {id : UInt64} {a b : AuctionItem}

/-- The listing with other values in the fields. -/
def AuctionItem.repaint (listing : AuctionItem) (type rarity level : UInt32) :
    AuctionItem :=
  { listing with item := { listing.item with type, rarity, level } }

/-- Listings that are equal without the fields have everything else in common. -/
theorem AuctionItem.eq_repaint (h : a.blank = b.blank) :
    b = a.repaint b.item.type b.item.rarity b.item.level := by
  obtain ⟨id, ⟨itemId, name, description, type, rarity, level, ownerId, attributes⟩,
    sellerId, buyerId, price, status, registered, expires, sold⟩ := a
  obtain ⟨id', ⟨itemId', name', description', type', rarity', level', ownerId',
    attributes'⟩, sellerId', buyerId', price', status', registered', expires',
    sold'⟩ := b
  simp only [AuctionItem.blank, Item.blank, AuctionItem.mk.injEq,
    Item.mk.injEq] at h
  simp only [AuctionItem.repaint, AuctionItem.mk.injEq, Item.mk.injEq]
  tauto

theorem AuctionItem.fields_of_blank (h : a.blank = b.blank) :
    a.id = b.id ∧ a.status = b.status ∧ a.sellerId = b.sellerId ∧
      a.price = b.price ∧ a.item.name = b.item.name := by
  rw [eq_repaint h]
  exact ⟨rfl, rfl, rfl, rfl, rfl⟩

/-! ## What the cache shows -/

/-- What a search shows of a value in its cache. -/
def shownOf (unset : ℕ → UnsetFields) (value : Option Json) :
    Option (List Shown) :=
  (value.bind fun j => j.elements.bind (cachedItems unset)).map (List.map shown)

theorem shownOf_unset (unset unset' : ℕ → UnsetFields) (value : Option Json) :
    shownOf unset value = shownOf unset' value := by
  cases value with
  | none => rfl
  | some j =>
      cases helements : j.elements with
      | none => simp [shownOf, helements]
      | some elems =>
          simpa [shownOf, helements] using
            cachedItems_map (f := shown) (fun _ _ => rfl) unset unset' elems

theorem shownOf_cachedJson (unset : ℕ → UnsetFields) (results : List AuctionItem) :
    shownOf unset (some (.array (results.map cachedJson))) =
      some (results.map shown) := by
  obtain ⟨results', hread, hback⟩ := cachedItems_cachedJson unset results
  simp [shownOf, Json.elements, hread, map_shown_of_comesBack hback]

/-! ## Servers -/

namespace Server

/-- Each listing of the set is stored with the fields it has in memory, and
filed under no type but its own. -/
structure OwnFields (ids : Set UInt64) (s : Server) : Prop where
  stored : ∀ id ∈ ids, ∀ listing, s.house.auctionItems[id]? = some listing →
    ∀ doc ∈ s.db.auctions, doc.id.toUInt64 = id →
      doc.stored = (itemToBson listing).stored
  filed : ∀ id ∈ ids, ∀ listing, s.house.auctionItems[id]? = some listing →
    ∀ type, s.house.Files (.type type) id → type = listing.item.type
  occupied : s.house.NoEmptyBucket

/-- The servers are alike up to the listings of the set. -/
structure Alike (ids : Set UInt64) (s t : Server) : Prop where
  wellFiled : s.WellFiled
  items : ∀ id : UInt64, (s.house.auctionItems[id]?).map AuctionItem.blank =
    (t.house.auctionItems[id]?).map AuctionItem.blank
  fixed : ∀ id : UInt64, id ∉ ids →
    s.house.auctionItems[id]? = t.house.auctionItems[id]?
  next : s.house.nextAuctionId = t.house.nextAuctionId
  sellerIndex : s.house.sellerIndex = t.house.sellerIndex
  priceIndex : s.house.priceIndex = t.house.priceIndex
  keywordIndex : s.house.keywordIndex = t.house.keywordIndex
  types : ∀ id ∉ ids, ∀ type,
    s.house.Files (.type type) id ↔ t.house.Files (.type type) id
  typed : ∀ id ∈ ids, (∃ type, s.house.Files (.type type) id) ↔
    ∃ type, t.house.Files (.type type) id
  auctions : List.Forall₂ (AuctionDocument.Alike ids) s.db.auctions t.db.auctions
  users : s.db.users = t.db.users
  redisAvailable : s.db.redisAvailable = t.db.redisAvailable
  redis : ∀ (key : String) (unset : ℕ → UnsetFields),
    shownOf unset s.db.redis[key]? = shownOf unset t.db.redis[key]?
  own : OwnFields ids s
  own' : OwnFields ids t

variable {ids : Set UInt64} {s t : Server}

theorem Occupied.alike (h : s.Occupied) : s.Alike ∅ s where
  wellFiled := h.1
  items _ := rfl
  fixed _ _ := rfl
  next := rfl
  sellerIndex := rfl
  priceIndex := rfl
  keywordIndex := rfl
  types _ _ _ := Iff.rfl
  typed _ _ := Iff.rfl
  auctions := List.forall₂_same.mpr fun _ _ => ⟨rfl, fun _ => rfl⟩
  users := rfl
  redisAvailable := rfl
  redis _ _ := rfl
  own := ⟨by simp, by simp, h.2⟩
  own' := ⟨by simp, by simp, h.2⟩

/-- The listing can be found by its type. -/
def Exposed (s : Server) (id : UInt64) : Prop :=
  ¬ s.ClosedAt id ∨ ∃ type, s.house.Files (.type type) id

/-- With no listing of the set in it, the type index is the same. -/
theorem Alike.itemTypeIndex (h : s.Alike ids t)
    (hhidden : ∀ id ∈ ids, ¬ s.Exposed id) :
    s.house.itemTypeIndex = t.house.itemTypeIndex := by
  refine Buckets.ext_holds h.own.occupied.type h.own'.occupied.type ?_
  intro type id
  by_cases hid : id ∈ ids
  · have hnone : ¬ ∃ type, s.house.Files (.type type) id := fun hfiles =>
      hhidden id hid (Or.inr hfiles)
    have hnone' := mt (h.typed id hid).mpr hnone
    exact iff_of_false (fun hs => hnone ⟨type, hs⟩) fun ht => hnone' ⟨type, ht⟩
  · exact h.types id hid type

/-- A listing of one is in the other as well. -/
theorem Alike.listing (h : s.Alike ids t) {id : UInt64} {a : AuctionItem}
    (ha : s.house.auctionItems[id]? = some a) :
    ∃ b, t.house.auctionItems[id]? = some b ∧ a.Alike ids id b := by
  have hblank := h.items id
  rw [ha, Option.map_some] at hblank
  obtain ⟨b, hb, hab⟩ := Option.map_eq_some_iff.mp hblank.symm
  refine ⟨b, hb, hab.symm, fun hid => ?_⟩
  have heq := h.fixed id hid
  rw [ha, hb] at heq
  exact Option.some.inj heq

/-- And the other way round. -/
theorem Alike.listing_of_second (h : s.Alike ids t) {id : UInt64} {b : AuctionItem}
    (hb : t.house.auctionItems[id]? = some b) :
    ∃ a, s.house.auctionItems[id]? = some a ∧ a.Alike ids id b := by
  have hblank := h.items id
  rw [hb, Option.map_some] at hblank
  obtain ⟨a, ha, -⟩ := Option.map_eq_some_iff.mp hblank
  obtain ⟨b', hb', hab⟩ := h.listing ha
  rw [hb] at hb'
  obtain rfl := Option.some.inj hb'
  exact ⟨a, ha, hab⟩

end Server

/-! ## Indices and updates -/

/-- The indices that do not file by type are the same. -/
structure AuctionHouse.SameLookups (house house' : AuctionHouse) : Prop where
  sellerIndex : house.sellerIndex = house'.sellerIndex
  priceIndex : house.priceIndex = house'.priceIndex
  keywordIndex : house.keywordIndex = house'.keywordIndex

section Updates

variable {house house' : AuctionHouse} {db db' : Database}

theorem AuctionHouse.SameLookups.removeFromIndices (h : house.SameLookups house')
    (husers : db'.users = db.users) (hab : a.blank = b.blank)
    (seller : ReadOutcome) :
    (house.removeFromIndices db seller a).1 =
        (house'.removeFromIndices db' seller b).1 ∧
      (house.removeFromIndices db seller a).2.SameLookups
        (house'.removeFromIndices db' seller b).2 := by
  obtain ⟨hid, -, hsellerId, hcost, -⟩ := AuctionItem.fields_of_blank hab
  rw [Server.removeFromIndices_of_users husers]
  obtain ⟨hseller, hprice, hkeyword⟩ := h
  simp only [AuctionHouse.removeFromIndices, hid, hsellerId, hcost]
  cases db.getUserInfo seller b.sellerId with
  | error e => exact ⟨rfl, hseller, hprice, hkeyword⟩
  | ok info =>
      have hprices := congrArg (fun m => m.remove b.price b.id) hprice
      have hkeywords := congrArg (fun m => m.removeEverywhere b.id) hkeyword
      cases info with
      | none => exact ⟨rfl, hseller, hprices, hkeywords⟩
      | some info =>
          exact ⟨rfl, congrArg (fun m => m.remove info.username b.id) hseller,
            hprices, hkeywords⟩

theorem AuctionHouse.SameLookups.updateIndices (h : house.SameLookups house')
    (husers : db'.users = db.users) (hab : a.blank = b.blank)
    (seller : ReadOutcome) :
    (house.updateIndices db seller a).1 =
        (house'.updateIndices db' seller b).1 ∧
      (house.updateIndices db seller a).2.SameLookups
        (house'.updateIndices db' seller b).2 := by
  obtain ⟨hid, hstatus, hsellerId, hcost, -⟩ := AuctionItem.fields_of_blank hab
  rw [Server.updateIndices_of_users husers]
  obtain ⟨hseller, hprice, hkeyword⟩ := h
  simp only [AuctionHouse.updateIndices, hid, hstatus, hsellerId, hcost]
  by_cases hclosed : b.status ≠ .active
  · rw [if_pos hclosed, if_pos hclosed]
    exact ⟨rfl, hseller, hprice, hkeyword⟩
  · rw [if_neg hclosed, if_neg hclosed]
    cases db.getUserInfo seller b.sellerId with
    | error e => exact ⟨rfl, hseller, hprice, hkeyword⟩
    | ok info =>
        have hprices := congrArg (fun m => m.add b.price b.id) hprice
        cases info with
        | none => exact ⟨rfl, hseller, hprices, hkeyword⟩
        | some info =>
            exact ⟨rfl, congrArg (fun m => m.add info.username b.id) hseller,
              hprices, hkeyword⟩

/-- The update of a listing drops its cache entry. -/
def ItemUpdateOutcomes.drops (o : ItemUpdateOutcomes) (available : Bool) : Bool :=
  match o.update with
  | .raised _ => false
  | _ => available && o.del.applied

theorem updateAuctionItem_redis (o : ItemUpdateOutcomes) (item : AuctionItem) :
    (db.updateAuctionItem o item).2.redis =
      if o.drops db.redisAvailable then
        db.redis.erase (Database.getItemCacheKey item.id)
      else db.redis := by
  have hwritten : ∀ w : WriteOutcome,
      (w.store db (db.setAuction item)).redis = db.redis ∧
        (w.store db (db.setAuction item)).redisAvailable =
          db.redisAvailable := by
    intro w
    cases h : w.applied <;> simp [WriteOutcome.store, h]
  cases hupdate : o.update with
  | raised applied =>
      simp [Database.updateAuctionItem, ItemUpdateOutcomes.drops, hupdate,
        (hwritten (.raised applied)).1]
  | done | refused =>
      by_cases havail : db.redisAvailable = true
      · simp only [Database.updateAuctionItem, ItemUpdateOutcomes.drops, hupdate,
          (hwritten _).2, havail, if_true, Bool.true_and]
        refine (congrArg Database.redis
          (Database.redisDel_reply_snd _ _ _ _)).trans ?_
        simp only [(hwritten _).1]
        rfl
      · simp [Database.updateAuctionItem, ItemUpdateOutcomes.drops, hupdate,
          (hwritten _).1, (hwritten _).2, havail]

/-- What an update returns depends on whether it modifies a document, and on
whether Redis is there. -/
theorem updateAuctionItem_fst_congr {o : ItemUpdateOutcomes} {item item' : AuctionItem}
    (hmodifies : db.modifiesAuction item = db'.modifiesAuction item')
    (havailable : db.redisAvailable = db'.redisAvailable) :
    (db.updateAuctionItem o item).1 = (db'.updateAuctionItem o item').1 := by
  have hwritten : ∀ (d : Database) (w : WriteOutcome) (i : AuctionItem),
      (w.store d (d.setAuction i)).redisAvailable = d.redisAvailable := by
    intro d w i
    cases h : w.applied <;> simp [WriteOutcome.store, h]
  cases hupdate : o.update with
  | raised applied => simp [Database.updateAuctionItem, hupdate]
  | done | refused =>
      by_cases havail : db.redisAvailable = true
      · cases hdel : o.del <;>
          simp [Database.updateAuctionItem, hupdate, hwritten, havail,
            ← havailable, Database.redisDel, hdel, hmodifies]
      · simp [Database.updateAuctionItem, hupdate, hwritten, havail, ← havailable,
          hmodifies]

end Updates

namespace Server

variable {s t : Server}

/-! ## Closing a listing -/

/-- What a change does to a listing that touches no unset field. -/
structure Touches (f : AuctionItem → AuctionItem) : Prop where
  id : ∀ a, (f a).id = a.id
  type : ∀ a, (f a).item.type = a.item.type
  stored : ∀ a, (itemToBson (f a)).stored = (itemToBson a).stored
  blank : ∀ a b, a.blank = b.blank → (f a).blank = (f b).blank

theorem touches_cancelledListing : Touches cancelledListing where
  id _ := rfl
  type _ := rfl
  stored _ := rfl
  blank a b h := by
    rw [AuctionItem.eq_repaint h]
    rfl

theorem touches_soldListing (buyerId : UInt32) (now : Time) :
    Touches fun listing => soldListing listing buyerId now where
  id _ := rfl
  type _ := rfl
  stored _ := rfl
  blank a b h := by
    rw [AuctionItem.eq_repaint h]
    rfl

variable {f : AuctionItem → AuctionItem}

/-- A document found by id is found in both, or in neither. -/
theorem Alike.findAuction (h : s.Alike ids t) (id : UInt64) :
    (s.db.findAuction id = none ∧ t.db.findAuction id = none) ∨
      ∃ d e, s.db.findAuction id = some d ∧ t.db.findAuction id = some e ∧
        d.Alike ids e :=
  Collection.findOne_forall₂
    (fun _ _ halike => AuctionDocument.id_of_blank halike.blank) h.auctions

/-- Storing a changed listing modifies a document in both, or in neither. -/
theorem Alike.modifiesAuction (h : s.Alike ids t) (hf : Touches f)
    (ha : s.house.auctionItems[id]? = some a)
    (hb : t.house.auctionItems[id]? = some b) (hab : a.Alike ids id b) :
    s.db.modifiesAuction (f a) = t.db.modifiesAuction (f b) := by
  have hida : a.id = id := h.wellFiled.keyed id a ha
  have hidb : b.id = id := (AuctionItem.fields_of_blank hab.blank).1.symm.trans hida
  have hequal : ∀ d e, s.db.findAuction id = some d →
      t.db.findAuction id = some e → d.Alike ids e →
      (itemToBson (f a) = d ↔ itemToBson (f b) = e) := by
    intro d e hd he hde
    have hdid : d.id.toUInt64 = id :=
      eq_toInt64_iff.mp (Collection.key_of_findOne hd)
    have heid : e.id.toUInt64 = id :=
      eq_toInt64_iff.mp (Collection.key_of_findOne he)
    by_cases hid : id ∈ ids
    · have hd' := h.own.stored id hid a ha d (Collection.mem_of_findOne hd) hdid
      have he' := h.own'.stored id hid b hb e (Collection.mem_of_findOne he) heid
      rw [@document_eq_iff (itemToBson (f a)) d, @document_eq_iff
        (itemToBson (f b)) e, hf.stored, hf.stored, hd', he', itemToBson_blank,
        itemToBson_blank, hf.blank a b hab.blank, hde.blank]
      simp
    · rw [hab.fixed hid, hde.fixed (by rwa [hdid])]
  rw [Bool.eq_iff_iff]
  simp only [Database.modifiesAuction, hf.id, hida, hidb,
    Collection.modifiesOne_eq_true]
  rcases h.findAuction id with ⟨hnone, hnone'⟩ | ⟨d, e, hd, he, hde⟩
  · have hnone := hnone
    unfold Database.findAuction at hnone hnone'
    simp [hnone, hnone']
  · have hiff := hequal d e hd he hde
    unfold Database.findAuction at hd he
    simp [hd, he, hiff]

/-- The documents after both have stored the change. -/
theorem Alike.setAuction (h : s.Alike ids t) (hf : Touches f)
    (ha : s.house.auctionItems[id]? = some a) (hab : a.Alike ids id b) :
    List.Forall₂ (AuctionDocument.Alike ids) (s.db.setAuction (f a)).auctions
      (t.db.setAuction (f b)).auctions := by
  have hida : a.id = id := h.wellFiled.keyed id a ha
  have hid : (f b).id = (f a).id := by
    rw [hf.id, hf.id, (AuctionItem.fields_of_blank hab.blank).1]
  simp only [Database.setAuction, hid]
  refine Collection.forall₂_updateOne
    (fun _ _ halike => AuctionDocument.id_of_blank halike.blank) ?_ h.auctions
  intro d e _ _
  refine ⟨?_, fun hfixed => ?_⟩
  · rw [itemToBson_blank, itemToBson_blank, hf.blank a b hab.blank]
  · have hnot : id ∉ ids := by
      simpa [itemToBson, hf.id, hida] using hfixed
    rw [hab.fixed hnot]

/-- Changed in memory and in the database, a listing still has the fields its
documents store. -/
theorem OwnFields.update {house : AuctionHouse} {db : Database}
    (h : OwnFields ids s)
    (hkeyed : ∀ (i : UInt64) c, s.house.auctionItems[i]? = some c → c.id = i)
    (hf : Touches f) (ha : s.house.auctionItems[id]? = some a)
    (hhouse : house = s.house.setItem id (f a))
    (hdocs : ∀ doc ∈ db.auctions, doc ∈ s.db.auctions ∨
      doc = itemToBson (f a)) :
    OwnFields ids { house, db } := by
  subst hhouse
  have hida : a.id = id := hkeyed id a ha
  have hlisting : ∀ id' listing,
      (s.house.setItem id (f a)).auctionItems[id']? = some listing →
        (id = id' ∧ listing = f a) ∨
          (id ≠ id' ∧ s.house.auctionItems[id']? = some listing) := by
    intro id' listing hlisting
    rcases eq_or_ne id id' with rfl | hne
    · rw [setItem_self] at hlisting
      exact Or.inl ⟨rfl, (Option.some.inj hlisting).symm⟩
    · rw [setItem_of_ne _ _ hne] at hlisting
      exact Or.inr ⟨hne, hlisting⟩
  refine ⟨?_, ?_, h.occupied.setItem id (f a)⟩
  · intro id' hid' listing hitem doc hdoc hdocid
    rcases hlisting id' listing hitem with ⟨rfl, rfl⟩ | ⟨hne, hold⟩
    · rw [hf.stored]
      rcases hdocs doc hdoc with hdoc | rfl
      · exact h.stored id hid' a ha doc hdoc hdocid
      · exact hf.stored a
    · rcases hdocs doc hdoc with hdoc | rfl
      · exact h.stored id' hid' listing hold doc hdoc hdocid
      · refine (hne ?_).elim
        rw [← hdocid, ← hida, ← hf.id a]
        simp [itemToBson]
  · intro id' hid' listing hitem type hfiles
    rcases hlisting id' listing hitem with ⟨rfl, rfl⟩ | ⟨-, hold⟩
    · rw [hf.type]
      exact h.filed id hid' a ha type hfiles
    · exact h.filed id' hid' listing hold type hfiles

theorem sameLookups (h : s.Alike ids t) : s.house.SameLookups t.house :=
  ⟨h.sellerIndex, h.priceIndex, h.keywordIndex⟩

/-- The first thing a removal does is to withdraw the id from its type. -/
theorem removeFromIndices_itemTypeIndex (house : AuctionHouse) (db : Database)
    (seller : ReadOutcome) (item : AuctionItem) :
    (house.removeFromIndices db seller item).2.itemTypeIndex =
      house.itemTypeIndex.remove item.item.type item.id := by
  simp only [AuctionHouse.removeFromIndices]
  cases db.getUserInfo seller item.sellerId with
  | error e => rfl
  | ok info => cases info <;> rfl

theorem OwnFields.removeFromIndices (h : OwnFields ids s) (seller : ReadOutcome)
    (item : AuctionItem) :
    OwnFields ids
      { s with house := (s.house.removeFromIndices s.db seller item).2 } := by
  have hsame := (s.house.removeFromIndices_cases s.db seller item).1
  refine ⟨?_, ?_, h.occupied.removeFromIndices s.db seller item⟩
  · intro id hid listing hlisting
    rw [hsame.1] at hlisting
    exact h.stored id hid listing hlisting
  · intro id hid listing hlisting type hfiles
    rw [hsame.1] at hlisting
    simp only [AuctionHouse.Files, removeFromIndices_itemTypeIndex,
      Buckets.holds_remove] at hfiles
    exact h.filed id hid listing hlisting type hfiles.1

/-- Both withdraw the listing from its type. -/
theorem Alike.removeTypes (h : s.Alike ids t) (seller seller' : ReadOutcome)
    (ha : s.house.auctionItems[id]? = some a)
    (hb : t.house.auctionItems[id]? = some b) (hab : a.Alike ids id b) :
    let house := (s.house.removeFromIndices s.db seller a).2
    let house' := (t.house.removeFromIndices t.db seller' b).2
    (∀ id' ∉ ids, ∀ type,
        house.Files (.type type) id' ↔ house'.Files (.type type) id') ∧
      ∀ id' ∈ ids, (∃ type, house.Files (.type type) id') ↔
        ∃ type, house'.Files (.type type) id' := by
  have hida : a.id = id := h.wellFiled.keyed id a ha
  have hidb : b.id = id := (AuctionItem.fields_of_blank hab.blank).1.symm.trans hida
  simp only [AuctionHouse.Files, removeFromIndices_itemTypeIndex,
    Buckets.holds_remove, hida, hidb]
  constructor
  · intro id' hid' type
    refine and_congr (h.types id' hid' type) (not_congr ?_)
    constructor
    · rintro ⟨rfl, rfl⟩
      exact ⟨by rw [hab.fixed hid'], rfl⟩
    · rintro ⟨rfl, rfl⟩
      exact ⟨by rw [hab.fixed hid'], rfl⟩
  · intro id' hid'
    rcases eq_or_ne id id' with rfl | hne
    · -- A listing of the set is filed under no type but its own.
      refine iff_of_false ?_ ?_
      · rintro ⟨type, hfiles, hnot⟩
        exact hnot ⟨(h.own.filed id hid' a ha type hfiles).symm, rfl⟩
      · rintro ⟨type, hfiles, hnot⟩
        exact hnot ⟨(h.own'.filed id hid' b hb type hfiles).symm, rfl⟩
    · simp only [hne, and_false, not_false_iff, and_true]
      exact h.typed id' hid'

/-- Both take a closed listing out of the indices. -/
theorem Alike.removeFromIndices (h : s.Alike ids t) (seller : ReadOutcome)
    (ha : s.house.auctionItems[id]? = some a)
    (hb : t.house.auctionItems[id]? = some b) (hab : a.Alike ids id b)
    (hclosed : a.status ≠ .active) :
    (s.house.removeFromIndices s.db seller a).1 =
        (t.house.removeFromIndices t.db seller b).1 ∧
      Alike ids { s with house := (s.house.removeFromIndices s.db seller a).2 }
        { t with house := (t.house.removeFromIndices t.db seller b).2 } := by
  obtain ⟨hresult, hlookups⟩ :=
    (sameLookups h).removeFromIndices h.users.symm hab.blank seller
  have hsame := (s.house.removeFromIndices_cases s.db seller a).1
  have hsame' := (t.house.removeFromIndices_cases t.db seller b).1
  have hmove : Move ⟨False, False, False⟩ s
      { s with house := (s.house.removeFromIndices s.db seller a).2 } :=
    withdraw_move seller ha hclosed
  obtain ⟨htypes, htyped⟩ := h.removeTypes seller seller ha hb hab
  refine ⟨hresult, h.wellFiled.move hmove, ?_, ?_, ?_, hlookups.sellerIndex,
    hlookups.priceIndex, hlookups.keywordIndex, htypes, htyped, h.auctions,
    h.users, h.redisAvailable, h.redis, h.own.removeFromIndices seller a,
    h.own'.removeFromIndices seller b⟩
  · intro id'
    simp only [hsame.1, hsame'.1]
    exact h.items id'
  · intro id' hid'
    simp only [hsame.1, hsame'.1]
    exact h.fixed id' hid'
  · simp only [hsame.2, hsame'.2]
    exact h.next

/-- A changed listing is alike if the listing was. -/
theorem alike_of_touches (hf : Touches f) (hab : a.Alike ids id b) :
    (f a).Alike ids id (f b) :=
  ⟨hf.blank a b hab.blank, fun hid => by rw [hab.fixed hid]⟩

/-- Both store a closed listing, and the update returns the same. -/
theorem Alike.update (h : s.Alike ids t) (hf : Touches f)
    (ha : s.house.auctionItems[id]? = some a)
    (hb : t.house.auctionItems[id]? = some b) (hab : a.Alike ids id b)
    (hactive : a.status = .active) (hclosed : (f a).status ≠ .active)
    (o : ItemUpdateOutcomes) :
    (s.db.updateAuctionItem o (f a)).1 = (t.db.updateAuctionItem o (f b)).1 ∧
      Alike ids
        { house := s.house.setItem id (f a)
          db := (s.db.updateAuctionItem o (f a)).2 }
        { house := t.house.setItem id (f b)
          db := (t.db.updateAuctionItem o (f b)).2 } := by
  have hfab := alike_of_touches hf hab
  have hidb : (f b).id = (f a).id := by
    rw [hf.id, hf.id, (AuctionItem.fields_of_blank hab.blank).1]
  have hmove : Move ⟨False, False, False⟩ s
      { house := s.house.setItem id (f a)
        db := (s.db.updateAuctionItem o (f a)).2 } :=
    close_move ha hactive hclosed (hf.id a) False.elim
  have hdocs : ∀ (u : Server) (c : AuctionItem),
      ∀ doc ∈ (u.db.updateAuctionItem o c).2.auctions,
        doc ∈ u.db.auctions ∨ doc = itemToBson c := by
    intro u c doc hdoc
    rw [Database.updateAuctionItem_auctions] at hdoc
    rcases o.update.store_cases u.db.auctions (u.db.setAuction c).auctions
      with heq | heq
    · rw [heq] at hdoc
      exact Or.inl hdoc
    · rw [heq] at hdoc
      exact (Collection.mem_updateOne hdoc).imp_right fun ⟨_, _, heq⟩ => heq
  have hwellt : ∀ (i : UInt64) c, t.house.auctionItems[i]? = some c → c.id = i := by
    intro i c hc
    obtain ⟨d, hd, hdc⟩ := h.listing_of_second hc
    rw [← (AuctionItem.fields_of_blank hdc.blank).1]
    exact h.wellFiled.keyed i d hd
  refine ⟨updateAuctionItem_fst_congr (h.modifiesAuction hf ha hb hab)
    h.redisAvailable, h.wellFiled.move hmove, ?_, ?_, h.next, h.sellerIndex,
    h.priceIndex, h.keywordIndex, h.types, h.typed, ?_, ?_, ?_, ?_,
    h.own.update h.wellFiled.keyed hf ha rfl (hdocs s (f a)),
    h.own'.update hwellt hf hb rfl (hdocs t (f b))⟩
  · intro id'
    simp only [AuctionHouse.setItem, Std.ExtTreeMap.getElem?_insert]
    split
    · exact congrArg some hfab.blank
    · exact h.items id'
  · intro id' hid'
    simp only [AuctionHouse.setItem, Std.ExtTreeMap.getElem?_insert]
    split
    · next heq =>
        have hid : id = id' := by simpa using heq
        rw [hfab.fixed (by rwa [hid])]
    · exact h.fixed id' hid'
  · simp only [Database.updateAuctionItem_auctions]
    rw [WriteOutcome.store, WriteOutcome.store]
    split
    · exact h.setAuction hf ha hab
    · exact h.auctions
  · simp only [Database.updateAuctionItem_users]
    exact h.users
  · simp only [Database.updateAuctionItem_redisAvailable]
    exact h.redisAvailable
  · intro key unset
    simp only [updateAuctionItem_redis, hidb, h.redisAvailable]
    split
    · simp only [Std.ExtTreeMap.getElem?_erase]
      split
      · rfl
      · exact h.redis key unset
    · exact h.redis key unset

/-- Both close the listing. -/
theorem Alike.afterClose (h : s.Alike ids t) (hf : Touches f)
    (ha : s.house.auctionItems[id]? = some a)
    (hb : t.house.auctionItems[id]? = some b) (hab : a.Alike ids id b)
    (hactive : a.status = .active) (hclosed : (f a).status ≠ .active)
    (o : ItemUpdateOutcomes) (seller : ReadOutcome) :
    Alike ids (s.afterClose o seller id (f a)) (t.afterClose o seller id (f b)) := by
  obtain ⟨hresult, hupdated⟩ := h.update hf ha hb hab hactive hclosed o
  simp only [Server.afterClose, ← hresult]
  split
  · exact (hupdated.removeFromIndices seller (setItem_self _ _ _)
      (setItem_self _ _ _) (alike_of_touches hf hab) hclosed).2
  · exact hupdated

end Server
end AuctionServer
