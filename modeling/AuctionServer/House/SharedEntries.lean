import AuctionServer.House.Runs
import AuctionServer.Support.Memo

/-!
# Searches that share a cache entry

On a house that nothing changes, a search is a question put to a cache in
front of the computation of its page.  Entries are kept under the hash of the
criteria, so criteria with the same hash must also have the same page.  The
page number and the page size are not part of the hash.
-/

namespace AuctionServer

/-- The criteria of a search. -/
def Call.criteria? : Call → Option SearchCriteria
  | .searchItems _ criteria => some criteria
  | _ => none

/-- A search whose seller lookups are answered as given, or the end of a cache
entry.  Without faults every call to Redis succeeds. -/
def Call.Quiet (sellers : UInt64 → ReadOutcome) (faults : Bool) : Call → Prop
  | .searchItems o _ =>
      o.sellers = sellers ∧
        (faults = false → o.get = .answered ∧ o.setex = .done)
  | .expireKey _ => True
  | _ => False

namespace Server

/-- What a search shows: a page, or the exception that left it; `none` where
the search is undefined. -/
abbrev Page := Option (Except StoreException (List Shown))

/-- The page of a search that does not look at the cache. -/
def page [StdSort] (s : Server) (sellers : UInt64 → ReadOutcome)
    (criteria : SearchCriteria) : Page :=
  (s.searchUncached sellers criteria).map fun found =>
    found.1.map (List.map shown)

/-- If the event is a search, its reply shows the page computed without the
cache. -/
def Transparent [StdSort] (e : ServerEvent) : Prop :=
  ∀ o criteria, e.input = .searchItems o criteria →
    ∃ result, e.output = .found result ∧
      e.before.page o.sellers criteria = some (result.map (List.map shown))

/-- What a search with criteria `c` leaves in the cache is right for `d`. -/
def Shares [StdSort] (s : Server) (sellers : UInt64 → ReadOutcome)
    (c d : SearchCriteria) : Prop :=
  c.isPopularSearch = true → d.isPopularSearch = true → c.hash = d.hash →
    ∀ results house,
      s.searchUncached sellers c = some (.ok results, house) →
        Database.Cacheable results → s.page sellers d = s.page sellers c

/-! ## The house between two searches -/

/-- The two servers differ in their cache at most. -/
def SameButCache (s t : Server) : Prop :=
  ∃ redis, t = { s with db := { s.db with redis } }

theorem filterMatches_redis (db : Database)
    (redis : Std.ExtTreeMap String Json) (sellers : UInt64 → ReadOutcome)
    (criteria : SearchCriteria) (ids : List UInt64) (house : AuctionHouse) :
    AuctionHouse.filterMatches { db with redis } sellers criteria ids house =
      AuctionHouse.filterMatches db sellers criteria ids house := by
  induction ids generalizing house with
  | nil => rfl
  | cons id ids ih =>
      have hmatches : ∀ item,
          matchesCriteria { db with redis } (sellers id) item criteria =
            matchesCriteria db (sellers id) item criteria := fun _ => rfl
      simp only [AuctionHouse.filterMatches, hmatches, ih]

variable [StdSort] {s t : Server} {sellers : UInt64 → ReadOutcome}
  {criteria : SearchCriteria}

theorem SameButCache.searchUncached_eq (h : s.SameButCache t) :
    t.searchUncached sellers criteria = s.searchUncached sellers criteria := by
  obtain ⟨redis, rfl⟩ := h
  simp only [searchUncached, selectItems, filterMatches_redis]

omit [StdSort] in
theorem SameButCache.wellFiled (h : s.SameButCache t) (hs : s.WellFiled) :
    t.WellFiled := by
  obtain ⟨redis, rfl⟩ := h
  have hmove : Move ⟨False, False, False⟩ s
      { s with db := { s.db with redis } } :=
    .touch rfl rfl (Database.SameNames.of_users rfl)
  exact hs.move hmove

/-- With the price bounds in order a search computes something, and the house
stays as it is. -/
theorem WellFiled.searchUncached_some (h : s.WellFiled)
    (hprices : criteria.PricesOrdered) :
    ∃ result, s.searchUncached sellers criteria = some (result, s.house) := by
  obtain ⟨ids, hids⟩ := candidates_some s.house hprices
  have hdefined : ∃ found, s.searchUncached sellers criteria = some found := by
    rcases hfilter : AuctionHouse.filterMatches s.db sellers criteria
      ids.toList s.house with ⟨filtered, house⟩
    cases filtered with
    | error e =>
        refine ⟨(.error e, house), ?_⟩
        simp [searchUncached, selectItems, hids, hfilter]
    | ok results =>
        refine ⟨(.ok (applyPagination
          (sortResults results criteria.sortBy criteria.sortOrder)
          criteria.page criteria.itemsPerPage), house), ?_⟩
        simp [searchUncached, selectItems, hids, hfilter]
  obtain ⟨⟨result, house⟩, hfound⟩ := hdefined
  obtain ⟨rfl, -⟩ := h.searchUncached_known hfound
  exact ⟨result, hfound⟩

/-! ## The search cache as a cache in front of a function -/

/-- A search has a page that can be stored. -/
def storable (s : Server) (sellers : UInt64 → ReadOutcome)
    (criteria : SearchCriteria) : Bool :=
  match s.searchUncached sellers criteria with
  | some (.ok results, _) => decide (Database.Cacheable results)
  | _ => false

/-- Searches as questions: the answer is the page, and the key is that of the
hash. -/
def memo (s : Server) (sellers : UInt64 → ReadOutcome) :
    Memo SearchCriteria String Page where
  key := fun criteria =>
    if criteria.isPopularSearch then
      some (Database.getSearchCacheKey criteria.hash)
    else none
  answer := s.page sellers
  keeps := s.storable sellers

theorem storable_iff :
    s.storable sellers criteria = true ↔
      ∃ results house,
        s.searchUncached sellers criteria = some (.ok results, house) ∧
          Database.Cacheable results := by
  unfold storable
  split
  · next results house heq => simp [heq]
  · next hne =>
      constructor
      · intro hfalse
        cases hfalse
      · rintro ⟨results, house, heq, -⟩
        exact (hne results house heq).elim

theorem memo_key_eq_some {key : String} :
    (s.memo sellers).key criteria = some key ↔
      criteria.isPopularSearch = true ∧
        Database.getSearchCacheKey criteria.hash = key := by
  by_cases hpopular : criteria.isPopularSearch = true
  · simp [memo, hpopular]
  · simp [memo, hpopular]

theorem agree_iff {c d : SearchCriteria} :
    (s.memo sellers).Agree c d ↔ s.Shares sellers c d := by
  constructor
  · intro hagree hc hd hhash results house hfound hcacheable
    exact hagree _ (memo_key_eq_some.mpr ⟨hc, rfl⟩)
      (memo_key_eq_some.mpr ⟨hd, by rw [hhash]⟩)
      (storable_iff.mpr ⟨results, house, hfound, hcacheable⟩)
  · intro hshares key hc hd hkeeps
    obtain ⟨hpopular, hkey⟩ := memo_key_eq_some.mp hc
    obtain ⟨hpopular', hkey'⟩ := memo_key_eq_some.mp hd
    obtain ⟨results, house, hfound, hcacheable⟩ := storable_iff.mp hkeeps
    exact hshares hpopular hpopular'
      (Database.getSearchCacheKey_inj.mp (hkey.trans hkey'.symm)) results house
      hfound hcacheable

/-- The call is the act: a search asks a question with ordered prices, and the
end of an entry drops it. -/
inductive Asks (sellers : UInt64 → ReadOutcome) :
    Call → Memo.Act SearchCriteria String → Prop
  | search {o : SearchOutcomes} {criteria : SearchCriteria}
      (hsellers : o.sellers = sellers) (hprices : criteria.PricesOrdered) :
      Asks sellers (.searchItems o criteria)
        (.ask criteria (decide (o.get = .answered)) o.setex.applied)
  | expire (key : String) : Asks sellers (.expireKey key) (.drop key)

/-- What a reply shows, if it is the reply of a search. -/
def shownReply : Reply → Option Page
  | .found result => some (some (result.map (List.map shown)))
  | _ => none

/-- The search entries of `t` are the entries of an abstract cache. -/
def Entries (t : Server) (cache : String → Option Page) : Prop :=
  ∀ criteriaHash : UInt64,
    (t.db.redis[Database.getSearchCacheKey criteriaHash]? = none ∧
        cache (Database.getSearchCacheKey criteriaHash) = none) ∨
      ∃ stored : List AuctionItem,
        t.db.redis[Database.getSearchCacheKey criteriaHash]? =
            some (Json.array (stored.map cachedJson)) ∧
          cache (Database.getSearchCacheKey criteriaHash) =
            some (some (.ok (stored.map shown)))

/-- The server `t` is `s` with the abstract cache. -/
def Mirrors (s t : Server) (cache : String → Option Page) : Prop :=
  s.SameButCache t ∧ t.Entries cache

omit [StdSort] in
theorem SameButCache.trans {u : Server} (h : s.SameButCache t)
    (h' : t.SameButCache u) : s.SameButCache u := by
  obtain ⟨redis, rfl⟩ := h
  obtain ⟨redis', rfl⟩ := h'
  exact ⟨redis', rfl⟩

theorem SameButCache.page_eq (h : s.SameButCache t) :
    t.page sellers criteria = s.page sellers criteria := by
  simp only [page, h.searchUncached_eq]

variable {cache : String → Option Page}

omit [StdSort] in
/-- Writing one entry on both sides. -/
theorem Entries.insert (h : t.Entries cache) (criteriaHash : UInt64)
    (results : List AuctionItem) :
    Entries
      { t with db := { t.db with
          redis := t.db.redis.insert (Database.getSearchCacheKey criteriaHash)
            (Json.array (results.map cachedJson)) } }
      (Function.update cache (Database.getSearchCacheKey criteriaHash)
        (some (some (.ok (results.map shown))))) := by
  intro h'
  by_cases hsame : criteriaHash = h'
  · subst h'
    exact Or.inr ⟨results, by simp, by simp⟩
  · have hkey : Database.getSearchCacheKey criteriaHash ≠
        Database.getSearchCacheKey h' :=
      fun heq => hsame (Database.getSearchCacheKey_inj.mp heq)
    have hread : (t.db.redis.insert (Database.getSearchCacheKey criteriaHash)
          (Json.array (results.map cachedJson)))[Database.getSearchCacheKey h']? =
        t.db.redis[Database.getSearchCacheKey h']? := by
      simp [Std.ExtTreeMap.getElem?_insert, hkey]
    have hcache := Function.update_of_ne hkey.symm
      (some (some (Except.ok (results.map shown)))) cache
    rcases h h' with ⟨hnone, hnone'⟩ | ⟨stored, hsome, hsome'⟩
    · exact Or.inl ⟨hread.trans hnone, hcache.trans hnone'⟩
    · exact Or.inr ⟨stored, hread.trans hsome, hcache.trans hsome'⟩

omit [StdSort] in
/-- Dropping one entry on both sides. -/
theorem Entries.erase (h : t.Entries cache) (key : String) :
    (t.expireKey key).Entries (Function.update cache key none) := by
  intro h'
  by_cases hkey : Database.getSearchCacheKey h' = key
  · subst key
    exact Or.inl ⟨by simp [expireKey], by simp⟩
  · have hread : (t.db.redis.erase key)[Database.getSearchCacheKey h']? =
        t.db.redis[Database.getSearchCacheKey h']? := by
      simp [Std.ExtTreeMap.getElem?_erase, Ne.symm hkey]
    have hcache := Function.update_of_ne hkey none cache
    rcases h h' with ⟨hnone, hnone'⟩ | ⟨stored, hsome, hsome'⟩
    · exact Or.inl ⟨hread.trans hnone, hcache.trans hnone'⟩
    · exact Or.inr ⟨stored, hread.trans hsome, hcache.trans hsome'⟩

omit [StdSort] in
theorem SameButCache.redisAvailable_eq (h : s.SameButCache t) :
    t.db.redisAvailable = s.db.redisAvailable := by
  obtain ⟨redis, rfl⟩ := h
  rfl

omit [StdSort] in
theorem SameButCache.house_eq (h : s.SameButCache t) : t.house = s.house := by
  obtain ⟨redis, rfl⟩ := h
  rfl

/-- What a search finds is what the question finds. -/
theorem Mirrors.find (h : s.Mirrors t cache) (hredis : s.db.redisAvailable = true)
    (sellers : UInt64 → ReadOutcome) (o : SearchOutcomes)
    (criteria : SearchCriteria) :
    (t.cachedResults o criteria = none ∧
        (s.memo sellers).find cache criteria (decide (o.get = .answered)) =
          none) ∨
      ∃ results, t.cachedResults o criteria = some results ∧
        (s.memo sellers).find cache criteria (decide (o.get = .answered)) =
          some (some (.ok (results.map shown))) := by
  obtain ⟨hsame, hentries⟩ := h
  by_cases hpopular : criteria.isPopularSearch = true
  · cases hget : o.get with
    | raised =>
        left
        simp [cachedResults, hpopular, Memo.find, hget,
          Database.getCachedSearch]
    | answered =>
        rcases hentries criteria.hash with ⟨hnone, hnone'⟩ | ⟨stored, hsome, hsome'⟩
        · left
          refine ⟨?_, ?_⟩
          · rw [cachedResults, if_pos hpopular]
            exact Database.getCachedSearch_none hnone _ _
          · simp [Memo.find, memo, hpopular, hnone']
        · right
          obtain ⟨results, hread, hback⟩ :=
            Database.getCachedSearch_answered
              (hsame.redisAvailable_eq.trans hredis) hsome o.unset
          have hshown := map_shown_of_comesBack hback
          refine ⟨results, ?_, ?_⟩
          · rw [cachedResults, if_pos hpopular, hget]
            exact hread
          · simp [Memo.find, memo, hpopular, hsome', hshown]
  · left
    simp [cachedResults, Memo.find, memo, hpopular]

/-- A search that finds nothing computes its page and keeps it as the question
does. -/
theorem Mirrors.compute (h : s.Mirrors t cache)
    (hredis : s.db.redisAvailable = true) {o : SearchOutcomes}
    {result : Except StoreException (List AuctionItem)}
    (hmiss : t.cachedResults o criteria = none)
    (hcomputed : s.searchUncached o.sellers criteria = some (result, s.house)) :
    ∃ t', t.searchItems o criteria = some (result, t') ∧
      s.Mirrors t'
        ((s.memo o.sellers).keep cache criteria o.setex.applied) := by
  obtain ⟨hsame, hentries⟩ := id h
  have hcomputed' : t.searchUncached o.sellers criteria =
      some (result, t.house) := by
    rw [hsame.searchUncached_eq, hsame.house_eq, hcomputed]
  have hskip : (criteria.isPopularSearch && o.setex.applied &&
      s.storable o.sellers criteria) = false →
        (s.memo o.sellers).keep cache criteria o.setex.applied = cache := by
    intro hno
    by_cases hpopular : criteria.isPopularSearch = true
    · rw [hpopular, Bool.true_and] at hno
      simp [Memo.keep, memo, hpopular, hno]
    · simp [Memo.keep, memo, hpopular]
  cases result with
  | error e =>
      have hno : s.storable o.sellers criteria = false := by
        simp [storable, hcomputed]
      refine ⟨t, by simp [searchItems, hmiss, hcomputed'], ?_⟩
      rw [hskip (by rw [hno, Bool.and_false])]
      exact h
  | ok results =>
      have hstorable : s.storable o.sellers criteria =
          decide (Database.Cacheable results) := by
        simp [storable, hcomputed]
      by_cases hpopular : criteria.isPopularSearch = true
      · have havailable := hsame.redisAvailable_eq.trans hredis
        by_cases hstores : o.setex.applied = true ∧ Database.Cacheable results
        · have hkeep : (s.memo o.sellers).keep cache criteria o.setex.applied =
              Function.update cache (Database.getSearchCacheKey criteria.hash)
                (some (some (.ok (results.map shown)))) := by
            have hkeeps : s.storable o.sellers criteria = true := by
              rw [hstorable]
              exact decide_eq_true hstores.2
            simp [Memo.keep, memo, hpopular, hstores.1, hkeeps, page,
              hcomputed, Except.map]
          rw [hkeep]
          refine ⟨{ t with db := { t.db with
            redis := t.db.redis.insert
              (Database.getSearchCacheKey criteria.hash)
              (Json.array (results.map cachedJson)) } }, ?_, ?_, ?_⟩
          · simp [searchItems, hmiss, hcomputed', hpopular,
              Database.cacheSearchResults_available havailable, hstores]
          · exact hsame.trans ⟨_, rfl⟩
          · exact hentries.insert criteria.hash results
        · refine ⟨t, by simp [searchItems, hmiss, hcomputed', hpopular,
            Database.cacheSearchResults_available havailable, hstores], ?_⟩
          rw [hskip]
          · exact h
          · by_contra hyes
            simp [hpopular, hstorable] at hyes
            exact hstores hyes
      · refine ⟨t, by simp [searchItems, hmiss, hcomputed', hpopular], ?_⟩
        rw [hskip (by simp [hpopular])]
        exact h

/-- A quiet call and its act have the same reply and leave the same cache. -/
theorem Mirrors.step (hs : s.WellFiled) (hredis : s.db.redisAvailable = true)
    {call : Call} {act : Memo.Act SearchCriteria String}
    (h : s.Mirrors t cache) (hasks : Asks sellers call act) :
    ∃ reply t' answer cache', machine.step t call = some (reply, t') ∧
      (s.memo sellers).machine.step cache act = some (answer, cache') ∧
        shownReply reply = answer ∧ s.Mirrors t' cache' := by
  cases hasks with
  | expire key =>
      obtain ⟨hsame, hentries⟩ := h
      exact ⟨_, _, _, _, rfl, rfl, rfl, hsame.trans ⟨_, rfl⟩, hentries.erase key⟩
  | @search o criteria hsellers hprices =>
      subst sellers
      rcases h.find hredis o.sellers o criteria with
        ⟨hmiss, hmiss'⟩ | ⟨results, hhit, hhit'⟩
      · obtain ⟨result, hcomputed⟩ :=
          @WellFiled.searchUncached_some _ s o.sellers criteria hs hprices
        obtain ⟨t', hsearch, hmirrors⟩ := h.compute hredis hmiss hcomputed
        have hpage : s.page o.sellers criteria =
            some (result.map (List.map shown)) := by
          simp [page, hcomputed]
        refine ⟨.found result, t', some (s.page o.sellers criteria), _, ?_, ?_,
          ?_, hmirrors⟩
        · simp [machine, Server.step, hsearch]
        · exact congrArg some (Memo.act_ask_of_missed hmiss')
        · simp [shownReply, hpage]
      · refine ⟨.found (.ok results), t, _, cache, ?_, ?_, rfl, h⟩
        · simp [machine, Server.step, searchItems, hhit]
        · exact congrArg some (Memo.act_ask_of_found hhit')

/-! ## Runs of searches -/

omit [StdSort] in
/-- Every quiet call is an act, which works when there are no faults. -/
theorem exists_act {faults : Bool} {call : Call}
    (hquiet : call.Quiet sellers faults)
    (hprices : ∀ criteria, call.criteria? = some criteria →
      criteria.PricesOrdered) :
    ∃ act, Asks sellers call act ∧ (faults = false → act.Plain) ∧
      act.question? = call.criteria? := by
  cases call with
  | searchItems o criteria =>
      refine ⟨_, .search hquiet.1 (hprices criteria rfl), ?_, rfl⟩
      intro hfaults
      obtain ⟨hget, hsetex⟩ := hquiet.2 hfaults
      rw [hget, hsetex]
      exact ⟨rfl, rfl⟩
  | expireKey key => exact ⟨_, .expire key, fun _ => trivial, rfl⟩
  | _ => exact hquiet.elim

omit [StdSort] in
/-- Every act is a quiet call. -/
theorem exists_call {faults : Bool}
    {act : Memo.Act SearchCriteria String}
    (hadmits : faults = false → act.Plain)
    (hprices : ∀ criteria, act.question? = some criteria →
      criteria.PricesOrdered) :
    ∃ call, Asks sellers call act ∧ call.Quiet sellers faults ∧
      call.criteria? = act.question? := by
  cases act with
  | drop key => exact ⟨_, .expire key, trivial, rfl⟩
  | ask criteria reads writes =>
      let o : SearchOutcomes :=
        ⟨if reads then .answered else .raised, fun _ => default, sellers,
          if writes then .done else .refused false⟩
      have hreads : decide (o.get = .answered) = reads := by
        cases reads <;> rfl
      have hwrites : o.setex.applied = writes := by
        cases writes <;> rfl
      have hasks : Asks sellers (.searchItems o criteria)
          (.ask criteria (decide (o.get = .answered)) o.setex.applied) :=
        .search rfl (hprices criteria rfl)
      rw [hreads, hwrites] at hasks
      refine ⟨_, hasks, ⟨rfl, ?_⟩, rfl⟩
      intro hfaults
      obtain ⟨rfl, rfl⟩ := hadmits hfaults
      exact ⟨rfl, rfl⟩

omit [StdSort] in
theorem shownReply_eq_some {reply : Reply} {shows : Page} :
    shownReply reply = some shows ↔
      ∃ result, reply = .found result ∧
        shows = some (result.map (List.map shown)) := by
  cases reply <;> simp [shownReply, eq_comm]

/-- A search is transparent exactly when the question is answered right. -/
theorem transparent_iff {e : ServerEvent}
    {e' : Memo.Event SearchCriteria String Page}
    (h : s.Mirrors e.before e'.before) (hasks : Asks sellers e.input e'.input)
    (hreply : shownReply e.output = e'.output) :
    Transparent e ↔ (s.memo sellers).Honest e' := by
  have hpage : ∀ criteria,
      e.before.page sellers criteria = s.page sellers criteria :=
    fun _ => h.1.page_eq
  constructor
  · intro htransparent criteria reads writes hact
    rw [hact] at hasks
    generalize hcall : e.input = call at hasks
    cases hasks with
    | @search o _ hsellers hprices =>
        obtain ⟨result, hfound, hshown⟩ := htransparent o criteria hcall
        rw [hsellers, hpage] at hshown
        rw [← hreply]
        exact shownReply_eq_some.mpr ⟨result, hfound, hshown⟩
  · intro hhonest o criteria hcall
    rw [hcall] at hasks
    generalize hact : e'.input = act at hasks
    cases hasks with
    | search hsellers hprices =>
        have hanswer := hhonest criteria _ _ hact
        rw [← hreply] at hanswer
        obtain ⟨result, hfound, hshown⟩ := shownReply_eq_some.mp hanswer
        refine ⟨result, hfound, ?_⟩
        rw [hsellers, hpage]
        exact hshown

/-- Runs of the server and of the abstract cache go in lockstep, and one is
transparent when the other is honest. -/
theorem mirrored_run (hwell : s.WellFiled) (hredis : s.db.redisAvailable = true)
    (hempty : ∀ criteriaHash : UInt64,
      s.db.redis[Database.getSearchCacheKey criteriaHash]? = none)
    {calls : List Call} {acts : List (Memo.Act SearchCriteria String)}
    (hasks : List.Forall₂ (Asks sellers) calls acts) :
    ∃ es t es' cache', machine.run s calls = some (es, t) ∧
      (s.memo sellers).machine.run (fun _ => none) acts = some (es', cache') ∧
      ((∀ e ∈ es, Transparent e) ↔ ∀ e' ∈ es', (s.memo sellers).Honest e') := by
  have hstart : s.Mirrors s fun _ => none :=
    ⟨⟨s.db.redis, rfl⟩, fun criteriaHash => Or.inl ⟨hempty criteriaHash, rfl⟩⟩
  obtain ⟨es, t, es', cache', hrun, hrun', hevents⟩ :=
    Machine.run_lockstep
      (fun _ _ _ _ hmirrors hasks => Mirrors.step hwell hredis hmirrors hasks)
      hasks hstart
  refine ⟨es, t, es', cache', hrun, hrun', ?_⟩
  clear hrun hrun'
  induction hevents with
  | nil => simp
  | cons hhead _ ih =>
      obtain ⟨hmirrors, hasks, hreply⟩ := hhead
      have hfirst := transparent_iff hmirrors hasks hreply
      rw [List.forall_mem_cons, List.forall_mem_cons, hfirst]
      exact and_congr_right fun _ => ih

omit [StdSort] in
/-- The quiet calls for some searches have acts, and the other way round. -/
theorem exists_acts {faults : Bool} {searches : List SearchCriteria}
    (hprices : ∀ criteria ∈ searches, criteria.PricesOrdered)
    {calls : List Call} (hquiet : ∀ call ∈ calls, call.Quiet sellers faults)
    (hcriteria : calls.filterMap Call.criteria? = searches) :
    ∃ acts, List.Forall₂ (Asks sellers) calls acts ∧
      (∀ act ∈ acts, faults = false → act.Plain) ∧
      acts.filterMap Memo.Act.question? = searches := by
  rw [← hcriteria]
  apply Machine.exists_partners
  intro call hcall
  refine exists_act (hquiet call hcall) ?_
  intro criteria hsome
  apply hprices
  rw [← hcriteria]
  exact List.mem_filterMap.mpr ⟨call, hcall, hsome⟩

omit [StdSort] in
theorem exists_calls {faults : Bool} {searches : List SearchCriteria}
    (hprices : ∀ criteria ∈ searches, criteria.PricesOrdered)
    {acts : List (Memo.Act SearchCriteria String)}
    (hadmitted : ∀ act ∈ acts, faults = false → act.Plain)
    (hquestions : acts.filterMap Memo.Act.question? = searches) :
    ∃ calls, List.Forall₂ (Asks sellers) calls acts ∧
      (∀ call ∈ calls, call.Quiet sellers faults) ∧
      calls.filterMap Call.criteria? = searches := by
  rw [← hquestions]
  have hpartners : ∀ act ∈ acts, ∃ call, Asks sellers call act ∧
      call.Quiet sellers faults ∧ call.criteria? = act.question? := by
    intro act hact
    refine exists_call (hadmitted act hact) ?_
    intro criteria hsome
    apply hprices
    rw [← hquestions]
    exact List.mem_filterMap.mpr ⟨act, hact, hsome⟩
  obtain ⟨calls, hpaired, hquiet, hcriteria⟩ := Machine.exists_partners hpartners
  exact ⟨calls, hpaired.flip, hquiet, hcriteria⟩

/-- On a house that nothing changes, the search cache is transparent to a
sequence of searches exactly when no search of the sequence leaves a wrong page
for a later one. -/
theorem search_cache_transparent_iff (hreach : s.Reachable)
    (hredis : s.db.redisAvailable = true)
    (hempty : ∀ criteriaHash : UInt64,
      s.db.redis[Database.getSearchCacheKey criteriaHash]? = none)
    (sellers : UInt64 → ReadOutcome) (faults : Bool)
    {searches : List SearchCriteria}
    (hprices : ∀ criteria ∈ searches, criteria.PricesOrdered) :
    (∀ calls, (∀ call ∈ calls, Call.Quiet sellers faults call) →
        calls.filterMap Call.criteria? = searches →
          ∃ es t, machine.run s calls = some (es, t) ∧
            ∀ e ∈ es, Transparent e) ↔
      searches.Pairwise (s.Shares sellers) := by
  have hwell := hreach.wellFiled
  have hadmits : ∀ act : Memo.Act SearchCriteria String,
      act.Plain → faults = false → act.Plain := fun _ hplain _ => hplain
  have hmemo := @Memo.honest_iff _ _ _ _ (s.memo sellers)
    (fun act => faults = false → act.Plain) hadmits searches
  have hagree : searches.Pairwise (s.memo sellers).Agree ↔
      searches.Pairwise (s.Shares sellers) :=
    ⟨fun h => h.imp agree_iff.mp, fun h => h.imp agree_iff.mpr⟩
  rw [← hagree, ← hmemo]
  constructor
  · intro htransparent acts hadmitted hquestions es' cache' hrun'
    obtain ⟨calls, hpaired, hquiet, hcriteria⟩ :=
      @exists_calls sellers faults searches hprices acts hadmitted hquestions
    obtain ⟨es, t, es₀', cache₀', hrun, hrun₀', hiff⟩ :=
      mirrored_run hwell hredis hempty hpaired
    obtain ⟨es₀, t₀, hrun₀, hevery⟩ := htransparent calls hquiet hcriteria
    rw [hrun] at hrun₀
    obtain ⟨rfl, rfl⟩ := Prod.mk.inj (Option.some.inj hrun₀)
    rw [hrun₀'] at hrun'
    obtain ⟨rfl, rfl⟩ := Prod.mk.inj (Option.some.inj hrun')
    exact hiff.mp hevery
  · intro hhonest calls hquiet hcriteria
    obtain ⟨acts, hpaired, hadmitted, hquestions⟩ :=
      exists_acts hprices hquiet hcriteria
    obtain ⟨es, t, es', cache', hrun, hrun', hiff⟩ :=
      mirrored_run hwell hredis hempty hpaired
    exact ⟨es, t, hrun,
      hiff.mpr (hhonest acts hadmitted hquestions es' cache' hrun')⟩

/-! ## Two listings and one entry -/

omit [StdSort] in
/-- A house with two listings whose cache has no entries yet. -/
theorem exists_two_listings (p : Server → Bool)
    (h : (@serve StdSort.insertion market [] none (fun _ => .answered)
      (["iron sword", "oak shield"].map offer)).any
        (fun r => r.2.db.redisAvailable && r.2.db.redis.isEmpty && p r.2) =
          true) :
    ∃ s, @Reachable StdSort.insertion s ∧ s.db.redisAvailable = true ∧
      (∀ criteriaHash : UInt64,
        s.db.redis[Database.getSearchCacheKey criteriaHash]? = none) ∧
      p s = true := by
  obtain ⟨es, s, hserve, hp⟩ :=
    @exists_serve StdSort.insertion market [] none (fun _ => .answered)
      (["iron sword", "oak shield"].map offer) (fun _ s =>
        s.db.redisAvailable && s.db.redis.isEmpty && p s) h
  simp only [Bool.and_eq_true] at hp
  obtain ⟨⟨hredis, hempty⟩, hp⟩ := hp
  refine ⟨s, ⟨market, [], none, _, _, es, hserve⟩, hredis, ?_, hp⟩
  intro criteriaHash
  rw [Std.ExtTreeMap.isEmpty_iff.mp hempty]
  exact Std.ExtTreeMap.getElem?_empty

/-- One listing a page, of the given page. -/
def onePerPage (page : UInt32) : SearchCriteria :=
  { itemType := 2, page, itemsPerPage := 1 }

omit [StdSort] in
/-- The same page asked for twice. -/
theorem search_cache_transparent_market :
    ∃ s, @Reachable StdSort.insertion s ∧
      ((∀ calls,
          (∀ call ∈ calls, Call.Quiet (fun _ => .answered) false call) →
          calls.filterMap Call.criteria? = [onePerPage 1, onePerPage 1] →
            ∃ es t, (@machine StdSort.insertion).run s calls = some (es, t) ∧
              ∀ e ∈ es, @Transparent StdSort.insertion e) ↔
        [onePerPage 1, onePerPage 1].Pairwise
          (@Shares StdSort.insertion s fun _ => .answered)) := by
  obtain ⟨s, hreach, hredis, hempty, -⟩ :=
    exists_two_listings (fun _ => true) (by decide +kernel)
  exact ⟨s, hreach, @search_cache_transparent_iff StdSort.insertion s hreach
    hredis hempty (fun _ => .answered) false [onePerPage 1, onePerPage 1]
    (by decide)⟩

/-- The event is a search whose reply shows another page than its own. -/
def showsOther (e : ServerEvent) : Bool :=
  match e.input, e.output with
  | .searchItems o criteria, .found result =>
      decide (e.before.page o.sellers criteria ≠
        some (result.map (List.map shown)))
  | _, _ => false

theorem not_transparent_of_showsOther {e : ServerEvent}
    (h : showsOther e = true) : ¬ Transparent e := by
  obtain ⟨s, call, reply, s'⟩ := e
  intro htransparent
  unfold showsOther at h
  split at h
  · next o criteria result hinput houtput =>
      obtain ⟨result', hfound, hshown⟩ := htransparent o criteria hinput
      obtain rfl : result = result' :=
        Reply.found.inj (houtput.symm.trans hfound)
      exact of_decide_eq_true h hshown
  · cases h

omit [StdSort] in
/-- The first page is stored under the key of the second. -/
theorem second_page_shows_first :
    ∃ s, @Reachable StdSort.insertion s ∧ s.db.redisAvailable = true ∧
      (∀ criteriaHash : UInt64,
        s.db.redis[Database.getSearchCacheKey criteriaHash]? = none) ∧
      ∃ es t, (@machine StdSort.insertion).run s
          [search (onePerPage 1), search (onePerPage 2)] = some (es, t) ∧
        ∃ e ∈ es, ¬ @Transparent StdSort.insertion e := by
  obtain ⟨s, hreach, hredis, hempty, hrun⟩ :=
    exists_two_listings (fun s =>
      ((@machine StdSort.insertion).run s
        [search (onePerPage 1), search (onePerPage 2)]).any
          fun r => r.1.any (@showsOther StdSort.insertion)) (by decide +kernel)
  obtain ⟨⟨es, t⟩, hrun, hany⟩ := (Option.any_eq_true _ _).mp hrun
  obtain ⟨e, he, hother⟩ := List.any_eq_true.mp hany
  exact ⟨s, hreach, hredis, hempty, es, t, hrun, e, he,
    @not_transparent_of_showsOther StdSort.insertion e hother⟩

end Server
end AuctionServer
