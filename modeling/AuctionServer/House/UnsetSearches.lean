import AuctionServer.House.UnsetOperations

/-!
# Searches on alike servers

A search compares statuses, prices, names and sellers, and looks at a type only
when it is asked for one.  It then finds the same listings in alike servers
unless a listing that differs can be found by its type.  The pages show the
same, and so do the entries they leave in the cache.
-/

namespace AuctionServer

/-- The sort sees the listings through the comparison only: renaming them in a
way the comparison does not notice renames what comes out. -/
def StdSort.Natural [StdSort] : Prop :=
  ∀ (rename : AuctionItem → AuctionItem) (lt : AuctionItem → AuctionItem → Bool)
    (items : List AuctionItem),
    (∀ a b, lt (rename a) (rename b) = lt a b) →
      StdSort.sort lt (items.map rename) = (StdSort.sort lt items).map rename

theorem StdSort.insertion_natural : @StdSort.Natural StdSort.insertion := by
  intro rename lt items hlt
  symm
  apply List.map_insertionSort
  intro a _ b _
  simp only [StrictWeak.NotAfter, hlt]

/-- The outcomes of a search that differ in unset fields at most. -/
structure SearchOutcomes.SameCalls (o o' : SearchOutcomes) : Prop where
  get : o.get = o'.get
  sellers : o.sellers = o'.sellers
  setex : o.setex = o'.setex

namespace Server

variable {ids : Set UInt64} {s t : Server} {a b : AuctionItem}
  {criteria : SearchCriteria} {sellers : UInt64 → ReadOutcome}

/-! ## The filter -/

/-- The criteria are met alike, unless a type is asked for that differs. -/
theorem matchesCriteria_of_blank {db db' : Database} (husers : db'.users = db.users)
    (h : a.blank = b.blank)
    (hread : criteria.itemType = 0 ∨ a.status ≠ .active ∨ a = b)
    (seller : ReadOutcome) :
    matchesCriteria db seller a criteria =
      matchesCriteria db' seller b criteria := by
  have hbounds : withinBounds a criteria = withinBounds b criteria := by
    obtain ⟨-, hstatus, -, hprice, -⟩ := AuctionItem.fields_of_blank h
    rcases hread with htype | hclosed | rfl
    · simp [withinBounds, htype, hstatus, hprice]
    · have hclosed' : (b.status == .active) = false := by
        simpa [← hstatus] using hclosed
      simp [withinBounds, hstatus, hclosed']
    · rfl
  obtain ⟨-, -, hseller, -, hname⟩ := AuctionItem.fields_of_blank h
  simp only [matchesCriteria, hbounds, hseller, nameMatches, hname,
    Database.getUserInfo_of_users husers]

/-- The search can tell no listing by a field that differs: it asks for no
type, or no listing of the set is found by its type. -/
def Hides (s : Server) (ids : Set UInt64) (criteria : SearchCriteria) : Prop :=
  criteria.itemType = 0 ∨ ∀ id ∈ ids, ¬ s.Exposed id

theorem Hides.unread (hhides : s.Hides ids criteria)
    {id : UInt64} (ha : s.house.auctionItems[id]? = some a) (hab : a.Alike ids id b) :
    criteria.itemType = 0 ∨ a.status ≠ .active ∨ a = b := by
  rcases hhides with htype | hhidden
  · exact Or.inl htype
  · right
    by_cases hid : id ∈ ids
    · left
      intro hactive
      exact hhidden id hid (Or.inl fun hclosed => hclosed a ha hactive)
    · exact Or.inr (hab.fixed hid)

/-- The filter lets the same listings through, up to unset fields. -/
theorem Alike.filterMatches (h : s.Alike ids t) (hhides : s.Hides ids criteria)
    (sellers : UInt64 → ReadOutcome) {candidates : List UInt64}
    (hknown : ∀ id ∈ candidates, id ∈ s.house.auctionItems) :
    (AuctionHouse.filterMatches s.db sellers criteria candidates s.house).1.map
        (List.map AuctionItem.blank) =
      (AuctionHouse.filterMatches t.db sellers criteria candidates t.house).1.map
        (List.map AuctionItem.blank) := by
  induction candidates with
  | nil => rfl
  | cons id candidates ih =>
      have hrest := ih fun id' hid' => hknown id' (List.mem_cons_of_mem _ hid')
      obtain ⟨a, ha⟩ := exists_item_of_mem (hknown id List.mem_cons_self)
      obtain ⟨b, hb, hab⟩ := h.listing ha
      have hsubscript : s.house.subscript id = (a, s.house) := by
        simp [AuctionHouse.subscript, ha]
      have hsubscript' : t.house.subscript id = (b, t.house) := by
        simp [AuctionHouse.subscript, hb]
      have hmatches := matchesCriteria_of_blank h.users.symm hab.blank
        (hhides.unread ha hab) (sellers id)
      simp only [AuctionHouse.filterMatches, hsubscript, hsubscript', hmatches]
      cases matchesCriteria t.db (sellers id) b criteria with
      | error e => rfl
      | ok matched =>
          rcases hrun : AuctionHouse.filterMatches s.db sellers criteria candidates
            s.house with ⟨rest, house⟩
          rcases hrun' : AuctionHouse.filterMatches t.db sellers criteria candidates
            t.house with ⟨rest', house'⟩
          rw [hrun, hrun'] at hrest
          cases rest with
          | error e =>
              cases rest' with
              | error e' => exact hrest
              | ok results' => cases hrest
          | ok results =>
              cases rest' with
              | error e' => cases hrest
              | ok results' =>
                  have hresults : results.map AuctionItem.blank =
                      results'.map AuctionItem.blank := Except.ok.inj hrest
                  cases matched with
                  | false => exact congrArg Except.ok hresults
                  | true => simp [Except.map, hresults, hab.blank]

/-! ## Candidates -/

theorem Alike.activeIds (h : s.Alike ids t) :
    s.house.auctionItems.toList.foldl
        (fun ids e => if e.2.status = .active then ids.insert e.1 else ids)
        (∅ : IdSet) =
      t.house.auctionItems.toList.foldl
        (fun ids e => if e.2.status = .active then ids.insert e.1 else ids) ∅ := by
  apply Std.ExtTreeSet.ext_mem
  intro id
  have hactive : ∀ u : Server, (∃ e ∈ u.house.auctionItems.toList,
      e.2.status = .active ∧ e.1 = id) ↔
        ∃ c, u.house.auctionItems[id]? = some c ∧ c.status = .active := by
    intro u
    constructor
    · rintro ⟨⟨id', c⟩, hmem, hactive, rfl⟩
      exact ⟨c, Std.ExtTreeMap.mem_toList_iff_getElem?_eq_some.mp hmem, hactive⟩
    · rintro ⟨c, hc, hactive⟩
      exact ⟨(id, c), Std.ExtTreeMap.mem_toList_iff_getElem?_eq_some.mpr hc,
        hactive, rfl⟩
  rw [mem_activeIds, mem_activeIds, hactive, hactive]
  refine or_congr_right ?_
  constructor
  · rintro ⟨a, ha, hopen⟩
    obtain ⟨b, hb, hab⟩ := h.listing ha
    exact ⟨b, hb, (AuctionItem.fields_of_blank hab.blank).2.1 ▸ hopen⟩
  · rintro ⟨b, hb, hopen⟩
    obtain ⟨a, ha, hab⟩ := h.listing_of_second hb
    exact ⟨a, ha, (AuctionItem.fields_of_blank hab.blank).2.1 ▸ hopen⟩

theorem Alike.candidates (h : s.Alike ids t) (hhides : s.Hides ids criteria) :
    s.house.candidates criteria = t.house.candidates criteria := by
  have htypes : criteria.itemType = 0 ∨
      s.house.itemTypeIndex = t.house.itemTypeIndex :=
    hhides.imp_right h.itemTypeIndex
  simp only [AuctionHouse.candidates, h.keywordIndex, h.sellerIndex, h.priceIndex,
    h.activeIds]
  rcases htypes with htype | htypes
  · simp [htype]
  · rw [htypes]

/-! ## Sorting and paging -/

theorem sortResults_map [StdSort] (hsort : StdSort.Natural)
    (results : List AuctionItem) (sortBy sortOrder : Bytes) :
    sortResults (results.map AuctionItem.blank) sortBy sortOrder =
      (sortResults results sortBy sortOrder).map AuctionItem.blank := by
  have hprice := hsort AuctionItem.blank
  unfold sortResults
  split
  · dsimp only
    split
    · exact hprice _ results fun _ _ => rfl
    · exact hprice _ results fun _ _ => rfl
  · split
    · dsimp only
      split
      · exact hprice _ results fun _ _ => rfl
      · exact hprice _ results fun _ _ => rfl
    · split
      · dsimp only
        split
        · exact hprice _ results fun _ _ => rfl
        · exact hprice _ results fun _ _ => rfl
      · rfl

theorem applyPagination_map (f : AuctionItem → AuctionItem)
    (results : List AuctionItem) (page itemsPerPage : UInt32) :
    applyPagination (results.map f) page itemsPerPage =
      (applyPagination results page itemsPerPage).map f := by
  simp only [applyPagination, List.isEmpty_map, List.length_map]
  split
  · rfl
  · generalize (((if page < 1 then 1 else page) - 1) * itemsPerPage).toNat = start
    split
    · rfl
    · rw [← List.map_take, ← List.map_drop]

/-- What is computed without the cache is the same up to unset fields. -/
theorem Alike.searchUncached [StdSort] (hsort : StdSort.Natural) (h : s.Alike ids t)
    (hhides : s.Hides ids criteria) (sellers : UInt64 → ReadOutcome) :
    (s.searchUncached sellers criteria).map
        (fun r => r.1.map (List.map AuctionItem.blank)) =
      (t.searchUncached sellers criteria).map
        (fun r => r.1.map (List.map AuctionItem.blank)) := by
  have hcandidates := h.candidates hhides
  cases hids : s.house.candidates criteria with
  | none =>
      rw [hids] at hcandidates
      simp [Server.searchUncached, selectItems, hids, ← hcandidates]
  | some candidates =>
      have hknown : ∀ id ∈ candidates.toList, id ∈ s.house.auctionItems :=
        fun id hid => h.wellFiled.candidates_known hids
          (Std.ExtTreeSet.mem_toList.mp hid)
      have hfilter := h.filterMatches hhides sellers hknown
      rw [hids] at hcandidates
      simp only [Server.searchUncached, selectItems, hids, ← hcandidates]
      rcases hrun : AuctionHouse.filterMatches s.db sellers criteria
        candidates.toList s.house with ⟨found, house⟩
      rcases hrun' : AuctionHouse.filterMatches t.db sellers criteria
        candidates.toList t.house with ⟨found', house'⟩
      rw [hrun, hrun'] at hfilter
      cases found with
      | error e =>
          cases found' with
          | error e' => simpa [Except.map] using hfilter
          | ok results' => cases hfilter
      | ok results =>
          cases found' with
          | error e' => cases hfilter
          | ok results' =>
              have hresults : results.map AuctionItem.blank =
                  results'.map AuctionItem.blank := Except.ok.inj hfilter
              simp only [Option.map_some, Except.map, ← applyPagination_map,
                ← sortResults_map hsort, hresults]

/-! ## The search cache -/

/-- What a search finds in the cache, as it is shown. -/
theorem getCachedSearch_shown (db : Database) (get : ReadOutcome)
    (unset : ℕ → UnsetFields) (hash : UInt64) :
    (db.getCachedSearch get unset hash).map (List.map shown) =
      if db.redisAvailable = true ∧ get = .answered then
        shownOf unset db.redis[Database.getSearchCacheKey hash]?
      else none := by
  by_cases havailable : db.redisAvailable = true
  · cases get with
    | raised => simp [Database.getCachedSearch, havailable]
    | answered =>
        rw [if_pos ⟨havailable, rfl⟩]
        simp only [Database.getCachedSearch, havailable, if_true]
        rfl
  · simp [Database.getCachedSearch, havailable]

theorem Alike.cachedResults (h : s.Alike ids t) {o o' : SearchOutcomes}
    (ho : o.SameCalls o') (criteria : SearchCriteria) :
    (s.cachedResults o criteria).map (List.map shown) =
      (t.cachedResults o' criteria).map (List.map shown) := by
  simp only [Server.cachedResults]
  split
  · rw [getCachedSearch_shown, getCachedSearch_shown, h.redisAvailable, ho.get,
      h.redis, shownOf_unset o.unset o'.unset]
  · rfl

/-- Other entries that show the same. -/
theorem Alike.withRedis (h : s.Alike ids t)
    {redis redis' : Std.ExtTreeMap String Json}
    (hredis : ∀ (key : String) (unset : ℕ → UnsetFields),
      shownOf unset redis[key]? = shownOf unset redis'[key]?) :
    Alike ids { s with db := { s.db with redis } }
      { t with db := { t.db with redis := redis' } } :=
  ⟨⟨h.wellFiled.keyed, h.wellFiled.known⟩, h.items, h.fixed, h.next,
    h.sellerIndex, h.priceIndex, h.keywordIndex, h.types, h.typed, h.auctions,
    h.users, h.redisAvailable, hredis,
    ⟨h.own.stored, h.own.filed, h.own.occupied⟩,
    ⟨h.own'.stored, h.own'.filed, h.own'.occupied⟩⟩

theorem Alike.expireKey (h : s.Alike ids t) (key : String) :
    Alike ids (s.expireKey key) (t.expireKey key) := by
  apply h.withRedis
  intro key' unset
  simp only [Std.ExtTreeMap.getElem?_erase]
  split
  · rfl
  · exact h.redis key' unset

variable {results results' : List AuctionItem}

/-- What does not look at unset fields is the same of both lists. -/
theorem map_of_blanks {β : Type} {f : AuctionItem → β}
    (hf : ∀ item, f item.blank = f item)
    (h : results.map AuctionItem.blank = results'.map AuctionItem.blank) :
    results.map f = results'.map f := by
  have hblank := congrArg (List.map f) h
  rw [List.map_map, List.map_map] at hblank
  have hf' : f ∘ AuctionItem.blank = f := funext hf
  rwa [hf'] at hblank

theorem shown_of_blanks
    (h : results.map AuctionItem.blank = results'.map AuctionItem.blank) :
    results.map shown = results'.map shown :=
  map_of_blanks (fun _ => rfl) h

/-- Whether a page can be dumped does not depend on unset fields. -/
theorem cacheable_of_blanks
    (h : results.map AuctionItem.blank = results'.map AuctionItem.blank) :
    Database.Cacheable results ↔ Database.Cacheable results' := by
  have hnames : results.map (fun item => item.item.name) =
      results'.map fun item => item.item.name :=
    map_of_blanks (fun _ => rfl) h
  have hmem : ∀ items : List AuctionItem, Database.Cacheable items ↔
      ∀ name ∈ items.map fun item => item.item.name, utf8Valid name = true := by
    intro items
    rw [Database.cacheable_iff, List.forall_mem_map]
  rw [hmem, hmem, hnames]

theorem Alike.cacheSearchResults (h : s.Alike ids t)
    (hresults : results.map AuctionItem.blank = results'.map AuctionItem.blank)
    (setex : WriteOutcome) (hash : UInt64) :
    Alike ids { s with db := s.db.cacheSearchResults setex hash results }
      { t with db := t.db.cacheSearchResults setex hash results' } := by
  by_cases havailable : s.db.redisAvailable = true
  · have havailable' : t.db.redisAvailable = true := h.redisAvailable ▸ havailable
    rw [Database.cacheSearchResults_available havailable,
      Database.cacheSearchResults_available havailable']
    simp only [cacheable_of_blanks hresults]
    split
    · apply h.withRedis
      intro key unset
      simp only [Std.ExtTreeMap.getElem?_insert]
      split
      · rw [shownOf_cachedJson, shownOf_cachedJson, shown_of_blanks hresults]
      · exact h.redis key unset
    · exact h
  · have havailable' : ¬ t.db.redisAvailable = true := h.redisAvailable ▸ havailable
    simp only [Database.cacheSearchResults, havailable, havailable']
    exact h

/-! ## Searches -/

/-- The results a client sees: the exception, or what is shown of the page. -/
def seenResults (result : Except StoreException (List AuctionItem)) :
    Except StoreException (List Shown) :=
  result.map (List.map shown)

/-- A search answers the same on both. -/
theorem Alike.searchItems [StdSort] (hsort : StdSort.Natural) (h : s.Alike ids t)
    {o o' : SearchOutcomes} (ho : o.SameCalls o')
    (hread : s.cachedResults o criteria ≠ none ∨ s.Hides ids criteria)
    {result : Except StoreException (List AuctionItem)} {s' : Server}
    (hsearch : s.searchItems o criteria = some (result, s')) :
    ∃ result' t', t.searchItems o' criteria = some (result', t') ∧
      seenResults result = seenResults result' ∧ Alike ids s' t' := by
  have hcache := h.cachedResults ho criteria
  cases hcached : s.cachedResults o criteria with
  | some results =>
      rw [hcached, Option.map_some] at hcache
      obtain ⟨results', hcached', hshown⟩ :=
        Option.map_eq_some_iff.mp hcache.symm
      simp only [Server.searchItems, hcached, Option.some.injEq,
        Prod.mk.injEq] at hsearch
      obtain ⟨rfl, rfl⟩ := hsearch
      exact ⟨.ok results', t, by simp [Server.searchItems, hcached'],
        congrArg Except.ok hshown.symm, h⟩
  | none =>
      rw [hcached, Option.map_none] at hcache
      have hcached' := Option.map_eq_none_iff.mp hcache.symm
      have huncached := h.searchUncached hsort
        (hread.resolve_left fun hne => hne hcached) o.sellers
      rcases h.wellFiled.searchItems_cases hsearch with
        ⟨results, hcached', -⟩ | ⟨-, hrun, hafter⟩
      · rw [hcached] at hcached'
        cases hcached'
      rw [hrun, Option.map_some, ho.sellers] at huncached
      obtain ⟨⟨result', house⟩, hrun', hresult⟩ :=
        Option.map_eq_some_iff.mp huncached.symm
      obtain ⟨rfl, -⟩ := h.wellFiled_second.searchUncached_known hrun'
      cases result with
      | error e =>
          obtain rfl : s' = s := by
            rcases hafter with ⟨results, hok, -⟩ | ⟨heq, -⟩
            · cases hok
            · exact heq
          cases result' with
          | ok results' => cases hresult
          | error e' =>
              refine ⟨.error e', t, by simp [Server.searchItems, hcached', hrun'],
                ?_, h⟩
              simpa [Except.map, seenResults] using hresult.symm
      | ok results =>
          cases result' with
          | error e' => cases hresult
          | ok results' =>
              have hblanks : results.map AuctionItem.blank =
                  results'.map AuctionItem.blank := (Except.ok.inj hresult).symm
              refine ⟨.ok results',
                { t with db :=
                    if criteria.isPopularSearch then
                      t.db.cacheSearchResults o'.setex criteria.hash results'
                    else t.db },
                by simp [Server.searchItems, hcached', hrun'],
                congrArg Except.ok (shown_of_blanks hblanks), ?_⟩
              rcases hafter with ⟨_, heq, hpopular, rfl⟩ | ⟨rfl, hnot⟩
              · obtain rfl := Except.ok.inj heq
                simp only [hpopular, if_true, ← ho.setex]
                exact h.cacheSearchResults hblanks o.setex criteria.hash
              · simp only [hnot results rfl, Bool.false_eq_true, if_false]
                exact h

end Server
end AuctionServer
