import AuctionServer.Store.ItemCache
import AuctionServer.Support.Machine

/-!
# Reading listings through the item cache

Runs of the four operations on single listings over servers that answer, with
cache entries that expire at any time.  Every entry stays the cached form of
the document it was read from.  That form has no attributes in it, so what is
read is the stored listing as long as no listing with attributes is read from
the cache.
-/

namespace AuctionServer

/-- An operation on a single listing, or the end of a cache entry. -/
inductive ItemCall where
  | save (item : AuctionItem)
  | get (id : UInt64)
  | update (item : AuctionItem)
  | delete (id : UInt64)
  | expireKey (key : String)

/-- What an operation returns, or the exception that left it. -/
inductive ItemReply where
  | saved (result : Bool)
  | found (result : Option AuctionItem)
  | updated (result : Except StoreException Bool)
  | deleted (result : Except StoreException Bool)
  | keyExpired

namespace Database

/-- One operation over servers that answer. -/
def itemStep (db : Database) : ItemCall → Option (ItemReply × Database)
  | .save item =>
      let (result, db) := db.saveAuctionItem .done item
      some (.saved result, db)
  | .get id =>
      let (result, db) := db.getAuctionItem ⟨.answered, .answered, .done⟩ id
      some (.found result, db)
  | .update item =>
      let (result, db) := db.updateAuctionItem ⟨.done, .done⟩ item
      some (.updated result, db)
  | .delete id =>
      let (result, db) := db.deleteAuctionItem ⟨.done, .done⟩ id
      some (.deleted result, db)
  | .expireKey key =>
      some (.keyExpired, { db with redis := db.redis.erase key })

/-- The operations as a machine. -/
def itemMachine : Machine Database ItemCall ItemReply where
  step := itemStep

/-- A recorded operation with the states around it. -/
abbrev ItemEvent : Type :=
  Machine.Event Database ItemCall ItemReply

/-- How documents are shown and cached. -/
def itemCodec : LookAside AuctionDocument AuctionItem Json where
  view := bsonToItem
  encode doc :=
    if (itemToJson (bsonToItem doc)).dumps then
      some (itemToJson (bsonToItem doc))
    else none
  decode := itemOfJson

/-- The cached object of a listing. -/
def cachedAuction (db : Database) (id : UInt64) : Option Json :=
  db.redis[getItemCacheKey id]?

/-- Every cached object is that of the document with its id. -/
def ItemsCoherent (db : Database) : Prop :=
  itemCodec.Coherent db.findAuction db.cachedAuction

variable {db : Database}

/-! ## What each operation keeps -/

theorem getItemCacheKey_ne {id id' : UInt64} (h : id' ≠ id) :
    getItemCacheKey id ≠ getItemCacheKey id' :=
  fun heq => h (getItemCacheKey_inj.mp heq).symm

theorem toInt64_ne {id id' : UInt64} (h : id' ≠ id) :
    id.toInt64 ≠ id'.toInt64 :=
  fun heq => h (toInt64_inj.mp heq).symm

/-- Caching the found listing. -/
theorem cacheAuctionItem_done (hredis : db.redisAvailable = true) (id : UInt64)
    (doc : AuctionDocument) :
    db.cacheAuctionItem .done id (bsonToItem doc) =
      match itemCodec.encode doc with
      | none => (none, db)
      | some cached =>
          (some (bsonToItem doc),
            { db with redis := db.redis.insert (getItemCacheKey id) cached }) := by
  unfold cacheAuctionItem
  rw [if_pos hredis]
  by_cases hdumps : (itemToJson (bsonToItem doc)).dumps = true
  · rw [if_pos hdumps]
    simp only [itemCodec, if_pos hdumps]
    rfl
  · rw [if_neg hdumps]
    simp only [itemCodec, if_neg hdumps]

/-- A read returns what a read through the cache returns, and it leaves the
database as it was or with one more entry. -/
theorem getAuctionItem_answered (hredis : db.redisAvailable = true)
    (id : UInt64) :
    (db.getAuctionItem ⟨.answered, .answered, .done⟩ id).1 =
        itemCodec.read (db.findAuction id) (db.cachedAuction id) ∧
      ((db.getAuctionItem ⟨.answered, .answered, .done⟩ id).2 = db ∨
        ∃ doc cached, db.findAuction id = some doc ∧
          itemCodec.encode doc = some cached ∧
          (db.getAuctionItem ⟨.answered, .answered, .done⟩ id).2 =
            { db with redis := db.redis.insert (getItemCacheKey id) cached }) := by
  cases hcached : db.cachedAuction id with
  | some cached =>
      rw [cachedAuction] at hcached
      simp [getAuctionItem, hredis, hcached, LookAside.read, itemCodec]
  | none =>
      rw [cachedAuction] at hcached
      have hmiss : db.getAuctionItem ⟨.answered, .answered, .done⟩ id =
          db.findAuctionItem ⟨.answered, .answered, .done⟩ id := by
        simp [getAuctionItem, hredis, hcached]
      rw [hmiss]
      cases hdoc : db.findAuction id with
      | none => simp [findAuctionItem, hdoc, LookAside.read]
      | some doc =>
          have hfound : db.findAuctionItem ⟨.answered, .answered, .done⟩ id =
              db.cacheAuctionItem .done id (bsonToItem doc) := by
            simp [findAuctionItem, hdoc]
          rw [hfound, cacheAuctionItem_done hredis]
          cases hencode : itemCodec.encode doc with
          | none => simp [LookAside.read, hencode]
          | some cached =>
              refine ⟨?_, Or.inr ⟨doc, cached, rfl, hencode, rfl⟩⟩
              simp only [LookAside.read, Option.bind_some, hencode, Option.map_some]
              rfl

theorem getAuctionItem_redisAvailable (hredis : db.redisAvailable = true)
    (id : UInt64) :
    (db.getAuctionItem ⟨.answered, .answered, .done⟩ id).2.redisAvailable =
      true := by
  rcases (getAuctionItem_answered hredis id).2 with
    hsame | ⟨doc, cached, -, -, hfilled⟩
  · rw [hsame, hredis]
  · rw [hfilled, hredis]

theorem ItemsCoherent.get (h : db.ItemsCoherent)
    (hredis : db.redisAvailable = true) (id : UInt64) :
    ItemsCoherent (db.getAuctionItem ⟨.answered, .answered, .done⟩ id).2 := by
  rcases (getAuctionItem_answered hredis id).2 with
    hsame | ⟨doc, cached, hdoc, hencode, hfilled⟩
  · rw [hsame]
    exact h
  · rw [hfilled]
    apply h.fill hdoc hencode
    · simp [cachedAuction]
    · intro id' hne
      simp [cachedAuction, Std.ExtTreeMap.getElem?_insert, getItemCacheKey_ne hne]

theorem ItemsCoherent.save (h : db.ItemsCoherent) (item : AuctionItem) :
    ItemsCoherent (db.saveAuctionItem .done item).2 := by
  apply h.insert
  intro id doc hdoc
  simp only [saveAuctionItem, WriteOutcome.store_done, findAuction] at hdoc ⊢
  rw [Collection.findOne_append, hdoc]
  rfl

/-- A write of one document whose entry is dropped. -/
theorem ItemsCoherent.write {db' : Database} (h : db.ItemsCoherent) {id : UInt64}
    (hredis : db'.redis = db.redis.erase (getItemCacheKey id))
    (hrest : ∀ id', id' ≠ id → db'.findAuction id' = db.findAuction id') :
    db'.ItemsCoherent := by
  apply LookAside.Coherent.write h (k := id)
  · simp [cachedAuction, hredis]
  · intro id' hne
    refine ⟨?_, hrest id' hne⟩
    simp [cachedAuction, hredis, Std.ExtTreeMap.getElem?_erase,
      getItemCacheKey_ne hne]

theorem updateAuctionItem_done (hredis : db.redisAvailable = true)
    (item : AuctionItem) :
    (db.updateAuctionItem ⟨.done, .done⟩ item).2 =
      { db.setAuction item with
        redis := db.redis.erase (getItemCacheKey item.id) } := by
  simp [updateAuctionItem, hredis, redisDel]

theorem deleteAuctionItem_done (hredis : db.redisAvailable = true)
    (id : UInt64) :
    (db.deleteAuctionItem ⟨.done, .done⟩ id).2 =
      { db.removeAuction id with
        redis := db.redis.erase (getItemCacheKey id) } := by
  simp [deleteAuctionItem, removeAuction, hredis, redisDel]

theorem ItemsCoherent.update (h : db.ItemsCoherent)
    (hredis : db.redisAvailable = true) (item : AuctionItem) :
    ItemsCoherent (db.updateAuctionItem ⟨.done, .done⟩ item).2 := by
  rw [updateAuctionItem_done hredis]
  apply h.write rfl
  intro id hne
  simp only [findAuction, setAuction]
  rw [Collection.findOne_updateOne (fun _ _ => itemToBson_id item),
    if_neg (toInt64_ne hne)]

theorem ItemsCoherent.delete (h : db.ItemsCoherent)
    (hredis : db.redisAvailable = true) (id : UInt64) :
    ItemsCoherent (db.deleteAuctionItem ⟨.done, .done⟩ id).2 := by
  rw [deleteAuctionItem_done hredis]
  apply h.write rfl
  intro id' hne
  exact Collection.findOne_deleteOne_of_ne (toInt64_ne hne)

theorem ItemsCoherent.expireKey (h : db.ItemsCoherent) (key : String) :
    ItemsCoherent { db with redis := db.redis.erase key } := by
  apply h.forget
  intro id cached hcached
  simp only [cachedAuction, Std.ExtTreeMap.getElem?_erase] at hcached ⊢
  split at hcached
  · cases hcached
  · exact hcached

/-! ## Runs -/

/-- If the event is a read it returns the listing in the stored document, or
nothing if there is none. -/
def ReadsStored (e : ItemEvent) : Prop :=
  ∀ id, e.input = .get id →
    e.output = .found ((e.before.findAuction id).map bsonToItem)

/-- If the event reads a stored listing, the listing is not cached and its
strings are in UTF-8, or it is cached and has no attributes. -/
def ReadsThrough (e : ItemEvent) : Prop :=
  ∀ id doc, e.input = .get id → e.before.findAuction id = some doc →
    (e.before.cachedAuction id = none ∧
        utf8Valid doc.item.name = true ∧
          utf8Valid doc.item.description = true) ∨
      (e.before.cachedAuction id ≠ none ∧ (bsonToItem doc).item.attributes = [])

theorem encode_isSome_iff {doc : AuctionDocument} :
    (∃ cached, itemCodec.encode doc = some cached) ↔
      utf8Valid doc.item.name = true ∧ utf8Valid doc.item.description = true := by
  refine Iff.trans ?_ (itemToJson_dumps (bsonToItem doc))
  by_cases hdumps : (itemToJson (bsonToItem doc)).dumps = true
  · simp [itemCodec, hdumps]
  · simp [itemCodec, hdumps]

theorem recovers_iff {doc : AuctionDocument} {cached : Json}
    (hencode : itemCodec.encode doc = some cached) :
    itemCodec.Recovers doc ↔ (bsonToItem doc).item.attributes = [] := by
  have hcached : cached = itemToJson (bsonToItem doc) := by
    simp only [itemCodec] at hencode
    split at hencode
    · exact (Option.some.inj hencode).symm
    · cases hencode
  have hdecode : itemCodec.decode cached = some (bsonToItem doc).plain := by
    rw [hcached]
    exact itemOfJson_itemToJson _
  rw [← plain_eq_self_iff]
  constructor
  · intro hrecovers
    exact Option.some.inj (hdecode.symm.trans (hrecovers cached hencode))
  · intro hplain cached' hencode'
    obtain rfl := Option.some.inj (hencode.symm.trans hencode')
    rw [hdecode, hplain]
    rfl

/-- A read returns the stored listing exactly when the listing comes through
the cache. -/
theorem readsStored_iff {e : ItemEvent} (hfires : itemMachine.Fires e)
    (hredis : e.before.redisAvailable = true) (h : e.before.ItemsCoherent) :
    ReadsStored e ↔ ReadsThrough e := by
  have hread : ∀ id, e.input = .get id → e.output =
      .found (itemCodec.read (e.before.findAuction id)
        (e.before.cachedAuction id)) := by
    intro id hinput
    rw [← (getAuctionItem_answered hredis id).1]
    rw [Machine.Fires, hinput] at hfires
    exact (Prod.mk.inj (Option.some.inj hfires)).1.symm
  have hthrough : ∀ id,
      (itemCodec.read (e.before.findAuction id) (e.before.cachedAuction id) =
          (e.before.findAuction id).map bsonToItem ↔
        ∀ doc, e.before.findAuction id = some doc →
          (e.before.cachedAuction id = none ∧
              utf8Valid doc.item.name = true ∧
                utf8Valid doc.item.description = true) ∨
            (e.before.cachedAuction id ≠ none ∧
              (bsonToItem doc).item.attributes = [])) := by
    intro id
    refine (LookAside.read_eq_iff h).trans ?_
    refine forall_congr' fun doc => imp_congr_right fun hdoc => ?_
    refine or_congr (and_congr_right fun _ => encode_isSome_iff)
      (and_congr_right fun hentry => ?_)
    obtain ⟨cached, hcached⟩ := Option.ne_none_iff_exists'.mp hentry
    obtain ⟨doc', hdoc', hencode⟩ := h id cached hcached
    obtain rfl := Option.some.inj (hdoc.symm.trans hdoc')
    exact recovers_iff hencode
  constructor
  · intro hstored id doc hinput hdoc
    have hsame := (hread id hinput).symm.trans (hstored id hinput)
    exact (hthrough id).mp (ItemReply.found.inj hsame) doc hdoc
  · intro hcomes id hinput
    rw [hread id hinput, (hthrough id).mpr fun doc hdoc => hcomes id doc hinput hdoc]

/-- Every operation keeps the cache coherent. -/
theorem itemsCoherent_preserves :
    itemMachine.Preserves (fun _ => True)
      fun db => db.redisAvailable = true ∧ db.ItemsCoherent := by
  rintro ⟨db, call, reply, db'⟩ hfires - ⟨hredis, hcoherent⟩
  change db.redisAvailable = true at hredis
  change db.ItemsCoherent at hcoherent
  change db'.redisAvailable = true ∧ db'.ItemsCoherent
  change db.itemStep call = some (reply, db') at hfires
  cases call with
  | save item =>
      obtain ⟨-, rfl⟩ := Prod.mk.inj (Option.some.inj hfires)
      exact ⟨hredis, hcoherent.save item⟩
  | get id =>
      obtain ⟨-, rfl⟩ := Prod.mk.inj (Option.some.inj hfires)
      exact ⟨getAuctionItem_redisAvailable hredis id, hcoherent.get hredis id⟩
  | update item =>
      obtain ⟨-, rfl⟩ := Prod.mk.inj (Option.some.inj hfires)
      exact ⟨(updateAuctionItem_redisAvailable db ⟨.done, .done⟩ item).trans hredis,
        hcoherent.update hredis item⟩
  | delete id =>
      obtain ⟨-, rfl⟩ := Prod.mk.inj (Option.some.inj hfires)
      have hafter := congrArg Database.redisAvailable
        (deleteAuctionItem_done hredis id)
      exact ⟨hafter.trans hredis, hcoherent.delete hredis id⟩
  | expireKey key =>
      obtain ⟨-, rfl⟩ := Prod.mk.inj (Option.some.inj hfires)
      exact ⟨hredis, hcoherent.expireKey key⟩

/-- In a run of operations on single listings every read returns the stored
listing exactly when none of them misses a listing that cannot be cached, or
hits a listing that has attributes. -/
theorem reads_stored_iff (hredis : db.redisAvailable = true)
    (hcoherent : db.ItemsCoherent) {calls : List ItemCall}
    {es : List ItemEvent} {t : Database}
    (hrun : itemMachine.run db calls = some (es, t)) :
    (∀ e ∈ es, ReadsStored e) ↔ ∀ e ∈ es, ReadsThrough e := by
  have hkept := (Machine.run_invariant itemsCoherent_preserves hrun
    (fun _ _ => trivial) ⟨hredis, hcoherent⟩).2
  refine forall_congr' fun e => imp_congr_right fun he => ?_
  obtain ⟨⟨hbefore, hcoherent'⟩, -⟩ := hkept e he
  exact readsStored_iff (Machine.run_fires hrun e he) hbefore hcoherent'

/-! ## A listing with an attribute -/

/-- A store without listings. -/
def noAuctions : Database where
  auctions := []
  users := []
  redisAvailable := true
  redis := ∅

theorem itemsCoherent_noAuctions : noAuctions.ItemsCoherent := by
  apply LookAside.Coherent.of_empty
  intro id
  exact Std.ExtTreeMap.getElem?_empty

/-- A sword with some attributes. -/
def sword (attributes : List ItemAttribute) : AuctionItem :=
  { (default : AuctionItem) with
    id := 1
    item := { (default : Item) with name := literal "sword", attributes } }

/-- Two reads of a listing without attributes. -/
theorem reads_stored_plain :
    ∃ es t, itemMachine.run noAuctions [.save (sword []), .get 1, .get 1] =
        some (es, t) ∧
      ((∀ e ∈ es, ReadsStored e) ↔ ∀ e ∈ es, ReadsThrough e) := by
  have hsome : (itemMachine.run noAuctions
      [.save (sword []), .get 1, .get 1]).isSome = true := by decide +kernel
  obtain ⟨⟨es, t⟩, hrun⟩ := Option.isSome_iff_exists.mp hsome
  exact ⟨es, t, hrun, reads_stored_iff rfl itemsCoherent_noAuctions hrun⟩

/-- The event is a read that returns something else than the stored listing. -/
def readsOther (e : ItemEvent) : Bool :=
  match e.input, e.output with
  | .get id, .found result =>
      decide (result ≠ (e.before.findAuction id).map bsonToItem)
  | _, _ => false

theorem not_readsStored_of_readsOther {e : ItemEvent} (h : readsOther e = true) :
    ¬ ReadsStored e := by
  obtain ⟨db, call, reply, db'⟩ := e
  intro hstored
  unfold readsOther at h
  split at h
  · next id result hinput houtput =>
      have hfound := hstored id hinput
      rw [houtput] at hfound
      exact of_decide_eq_true h (ItemReply.found.inj hfound)
  · cases h

/-- The second read of a listing finds it in the cache, without its attribute. -/
theorem second_read_loses_attributes :
    noAuctions.redisAvailable = true ∧ noAuctions.ItemsCoherent ∧
      ∃ es t, itemMachine.run noAuctions
          [.save (sword [⟨literal "edge", literal "sharp"⟩]), .get 1, .get 1] =
            some (es, t) ∧
        ∃ e ∈ es, ¬ ReadsStored e := by
  have hany : (itemMachine.run noAuctions
      [.save (sword [⟨literal "edge", literal "sharp"⟩]), .get 1, .get 1]).any
        (fun r => r.1.any readsOther) = true := by decide +kernel
  obtain ⟨⟨es, t⟩, hrun, hother⟩ := (Option.any_eq_true _ _).mp hany
  obtain ⟨e, he, hreads⟩ := List.any_eq_true.mp hother
  exact ⟨rfl, itemsCoherent_noAuctions, es, t, hrun, e, he,
    not_readsStored_of_readsOther hreads⟩

end Database
end AuctionServer
