import AuctionServer.Store.Effects

/-!
# What a cache entry preserves

The fields a search reply shows survive the cache.  What is read of an entry
besides the fields nobody sets does not depend on them.
-/

namespace AuctionServer

/-- The fields of a listing that a search reply shows. -/
structure Shown where
  auctionId : UInt64
  itemId : UInt32
  name : Bytes
  sellerId : UInt32
  price : UInt32
  registrationTime : Time
deriving DecidableEq

/-- What a search reply shows of a listing. -/
def shown (item : AuctionItem) : Shown where
  auctionId := item.id
  itemId := item.item.id
  name := item.item.name
  sellerId := item.sellerId
  price := item.price
  registrationTime := item.registrationTime

theorem ofInt_toNat_uint64 (n : UInt64) : UInt64.ofInt (n.toNat : ℤ) = n := by
  have hlt := n.toNat_lt
  rw [UInt64.ofInt, Int.emod_eq_of_lt (by omega) (by omega)]
  simp

theorem ofInt_toNat_uint32 (n : UInt32) : UInt32.ofInt (n.toNat : ℤ) = n := by
  have hlt := n.toNat_lt
  rw [UInt32.ofInt, Int.emod_eq_of_lt (by omega) (by omega)]
  simp

/-- What comes back for a listing that was cached: what a search reply shows of
it, and its type, rarity and level, marked as active. -/
structure ComesBack (item item' : AuctionItem) : Prop where
  shown : shown item' = shown item
  type : item'.item.type = item.item.type
  rarity : item'.item.rarity = item.item.rarity
  level : item'.item.level = item.item.level
  status : item'.status = .active

theorem cachedItem_cachedJson (unset : UnsetFields) (item : AuctionItem) :
    ∃ item', cachedItem unset (cachedJson item) = some item' ∧
      ComesBack item item' := by
  refine ⟨_, rfl, ⟨?_, ?_, ?_, ?_, rfl⟩⟩
  · simp [shown, ofInt_toNat_uint64, ofInt_toNat_uint32]
  · simp [ofInt_toNat_uint32]
  · simp [ofInt_toNat_uint32]
  · simp [ofInt_toNat_uint32]

/-- A cached page comes back listing by listing. -/
theorem cachedItems_cachedJson (unset : ℕ → UnsetFields)
    (results : List AuctionItem) :
    ∃ results', cachedItems unset (results.map cachedJson) = some results' ∧
      List.Forall₂ ComesBack results results' := by
  induction results generalizing unset with
  | nil => exact ⟨[], rfl, List.Forall₂.nil⟩
  | cons item results ih =>
      obtain ⟨item', hitem, hback⟩ := cachedItem_cachedJson (unset 0) item
      obtain ⟨results', hresults, hrest⟩ := ih fun n => unset (n + 1)
      refine ⟨item' :: results', ?_, List.Forall₂.cons hback hrest⟩
      simp [cachedItems, hitem, hresults]

theorem map_shown_of_comesBack {results results' : List AuctionItem}
    (h : List.Forall₂ ComesBack results results') :
    results'.map shown = results.map shown := by
  induction h with
  | nil => rfl
  | cons hback _ ih => rw [List.map_cons, List.map_cons, hback.shown, ih]

/-! ## Unset fields -/

/-- Put the unset fields into a listing. -/
def UnsetFields.fill (unset : UnsetFields) (item : AuctionItem) : AuctionItem :=
  { item with
    buyerId := unset.buyerId
    expirationTime := unset.expirationTime
    soldTime := unset.soldTime
    item := { item.item with ownerId := unset.ownerId } }

theorem bind_eq_map {α β : Type} {x : Option α} {f g : α → Option β}
    {h : β → β} (hfg : ∀ a, f a = (g a).map h) : x.bind f = (x.bind g).map h := by
  cases x with
  | none => rfl
  | some a => exact hfg a

/-- The unset fields do not decide whether an object can be read. -/
theorem cachedItem_eq (unset : UnsetFields) (j : Json) :
    cachedItem unset j = (cachedItem default j).map unset.fill := by
  unfold cachedItem
  repeat
    apply bind_eq_map
    intro
  rfl

/-- What does not look at the unset fields is read the same, whatever they
hold. -/
theorem cachedItems_map {α : Type} {f : AuctionItem → α}
    (hf : ∀ unset item, f (UnsetFields.fill unset item) = f item)
    (unset unset' : ℕ → UnsetFields) (elems : List Json) :
    (cachedItems unset elems).map (List.map f) =
      (cachedItems unset' elems).map (List.map f) := by
  induction elems generalizing unset unset' with
  | nil => rfl
  | cons j elems ih =>
      have hcons : ∀ u : ℕ → UnsetFields,
          (cachedItems u (j :: elems)).map (List.map f) =
            (cachedItem default j).bind fun item =>
              ((cachedItems (fun n => u (n + 1)) elems).map
                (List.map f)).map (f item :: ·) := by
        intro u
        rw [cachedItems, cachedItem_eq]
        cases cachedItem default j with
        | none => rfl
        | some item =>
            cases cachedItems (fun n => u (n + 1)) elems with
            | none => simp
            | some items => simp [hf]
      have hrest := ih (fun n => unset (n + 1)) (fun n => unset' (n + 1))
      rw [hcons, hcons, hrest]

namespace Database

/-! ## Reading and writing entries -/

/-- The page can be dumped, so that it is cached. -/
def Cacheable (results : List AuctionItem) : Prop :=
  (Json.array (results.map cachedJson)).dumps = true

instance (results : List AuctionItem) : Decidable (Cacheable results) :=
  inferInstanceAs (Decidable (_ = true))

/-- A page can be dumped when its names are well-formed UTF-8. -/
theorem cacheable_iff {results : List AuctionItem} :
    Cacheable results ↔
      ∀ item ∈ results, utf8Valid item.item.name = true := by
  have hitem : ∀ item, (cachedJson item).dumps = utf8Valid item.item.name := by
    intro item
    simp [cachedJson, Json.dumps, Json.fieldsDump]
  simp only [Cacheable, Json.dumps, Json.elemsDump_map, hitem]

/-- A cache write leaves the cache as it was or stores the page. -/
theorem cacheSearchResults_redis (db : Database) (setex : WriteOutcome)
    (criteriaHash : UInt64) (results : List AuctionItem) :
    ∃ redis, db.cacheSearchResults setex criteriaHash results =
        { db with redis } ∧
      (redis = db.redis ∨ (Cacheable results ∧
        redis = db.redis.insert (getSearchCacheKey criteriaHash)
          (Json.array (results.map cachedJson)))) := by
  unfold cacheSearchResults
  split
  · dsimp only
    split
    · next hdumps =>
        rcases setex.store_cases db
          { db with
            redis := db.redis.insert (getSearchCacheKey criteriaHash)
              (Json.array (results.map cachedJson)) } with heq | heq
        · exact ⟨db.redis, heq, Or.inl rfl⟩
        · exact ⟨_, heq, Or.inr ⟨hdumps, rfl⟩⟩
    · exact ⟨db.redis, rfl, Or.inl rfl⟩
  · exact ⟨db.redis, rfl, Or.inl rfl⟩

/-- With Redis at hand, a page that can be dumped is stored when the write takes
effect. -/
theorem cacheSearchResults_available {db : Database}
    (hredis : db.redisAvailable = true) (setex : WriteOutcome)
    (criteriaHash : UInt64) (results : List AuctionItem) :
    db.cacheSearchResults setex criteriaHash results =
      if setex.applied = true ∧ Cacheable results then
        { db with
          redis := db.redis.insert (getSearchCacheKey criteriaHash)
            (Json.array (results.map cachedJson)) }
      else db := by
  unfold cacheSearchResults Cacheable WriteOutcome.store
  cases setex.applied <;> simp [hredis]

theorem getCachedSearch_none {db : Database} {criteriaHash : UInt64}
    (h : db.redis[getSearchCacheKey criteriaHash]? = none) (get : ReadOutcome)
    (unset : ℕ → UnsetFields) :
    db.getCachedSearch get unset criteriaHash = none := by
  unfold getCachedSearch
  cases get with
  | raised => simp
  | answered => simp [h]

/-- What is read is the page that was stored. -/
theorem getCachedSearch_answered {db : Database} {criteriaHash : UInt64}
    {stored : List AuctionItem} (hredis : db.redisAvailable = true)
    (hstored : db.redis[getSearchCacheKey criteriaHash]? =
      some (Json.array (stored.map cachedJson))) (unset : ℕ → UnsetFields) :
    ∃ results, db.getCachedSearch .answered unset criteriaHash = some results ∧
      List.Forall₂ ComesBack stored results := by
  obtain ⟨results, hread, hback⟩ := cachedItems_cachedJson unset stored
  refine ⟨results, ?_, hback⟩
  simp [getCachedSearch, hredis, hstored, Json.elements, hread]

end Database
end AuctionServer
