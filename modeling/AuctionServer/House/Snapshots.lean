import AuctionServer.House.StaleEntries
import AuctionServer.House.Users
import AuctionServer.Support.Refinement

/-!
# The search cache remembers pages

What the cache holds under the key of a search is decided by what happened so
far: the last page that was computed and stored for these criteria, unless its
entry has reached the end of its lifetime since.  No other operation writes or
drops such an entry, whatever the stores answer, and a restart leaves it alone.
A reply is therefore the page computed from the house as it is, or exactly the
page the cache remembers.
-/

namespace AuctionServer

namespace Database

/-- The search entries are the same. -/
def SameSearches (db db' : Database) : Prop :=
  db'.redisAvailable = db.redisAvailable ∧
    ∀ h, db'.redis[getSearchCacheKey h]? = db.redis[getSearchCacheKey h]?

variable {db db' db'' : Database}

theorem SameSearches.refl (db : Database) : db.SameSearches db :=
  ⟨rfl, fun _ => rfl⟩

theorem SameSearches.trans (h : db.SameSearches db') (h' : db'.SameSearches db'') :
    db.SameSearches db'' :=
  ⟨h'.1.trans h.1, fun k => (h'.2 k).trans (h.2 k)⟩

/-- Updating a listing drops the entry of an item only. -/
theorem sameSearches_updateAuctionItem (db : Database) (o : ItemUpdateOutcomes)
    (item : AuctionItem) : db.SameSearches (db.updateAuctionItem o item).2 := by
  obtain ⟨redis, hredis, heq⟩ := updateAuctionItem_snd db o item
  refine ⟨by rw [heq], fun h => ?_⟩
  rw [heq]
  rcases hredis with rfl | rfl
  · rfl
  · rw [Std.ExtTreeMap.getElem?_erase]
    simp [(getSearchCacheKey_ne_getItemCacheKey h item.id).symm]

end Database

namespace Server

/-- The page an event stores under the key of `h`, given what is remembered:
a search that missed the cache leaves its page, and an entry that expires is
forgotten. -/
def remember (h : UInt64) (page : Option (List AuctionItem)) (e : ServerEvent) :
    Option (List AuctionItem) :=
  match e.input, e.output with
  | .expireKey key, _ => if key = Database.getSearchCacheKey h then none else page
  | .searchItems o criteria, .found (.ok results) =>
      if criteria.isPopularSearch ∧ criteria.hash = h ∧
          e.before.cachedResults o criteria = none ∧
          e.before.db.redisAvailable = true ∧ o.setex.applied = true ∧
          Database.Cacheable results then
        some results
      else page
  | _, _ => page

/-- The page the cache remembers for `h` after these events. -/
def remembered (past : List ServerEvent) (h : UInt64) :
    Option (List AuctionItem) :=
  past.foldl (remember h) none

/-- The search entries of the cache are the remembered pages. -/
def Remembers (past : List ServerEvent) (s : Server) : Prop :=
  ∀ h, s.db.redis[Database.getSearchCacheKey h]? =
    (remembered past h).map fun page => Json.array (page.map cachedJson)

variable {s : Server} {past : List ServerEvent} {e : ServerEvent} {h : UInt64}

theorem remembered_concat (past : List ServerEvent) (e : ServerEvent)
    (h : UInt64) :
    remembered (past ++ [e]) h = remember h (remembered past h) e := by
  simp [remembered]

theorem afterClose_sameSearches (s : Server) (o : ItemUpdateOutcomes)
    (seller : ReadOutcome) (id : UInt64) (new : AuctionItem) :
    s.db.SameSearches (s.afterClose o seller id new).db := by
  have hdb : (s.afterClose o seller id new).db =
      (s.db.updateAuctionItem o new).2 := by
    simp only [afterClose]
    split <;> rfl
  rw [hdb]
  exact Database.sameSearches_updateAuctionItem s.db o new

variable [StdSort]

/-- Apart from searches and expiring entries, no call touches a search
entry. -/
theorem step_sameSearches (hfires : machine.Fires e)
    (hsearch : ∀ o criteria, e.input ≠ .searchItems o criteria)
    (hexpire : ∀ key, e.input ≠ .expireKey key) :
    e.before.db.SameSearches e.after.db := by
  obtain ⟨s, call, reply, s'⟩ := e
  cases call with
  | registerItem o now sellerId item price =>
      obtain ⟨-, rfl⟩ := fires_registerItem.mp hfires
      by_cases hinsert : o.insert = .done
      · obtain ⟨keys, house, heq, -⟩ :=
          registerItem_of_done s now sellerId item price hinsert
        simp only [heq]
        exact ⟨rfl, fun _ => rfl⟩
      · simp only [registerItem_of_ne_done s now sellerId item price hinsert]
        exact ⟨rfl, fun _ => rfl⟩
  | searchItems o criteria => exact (hsearch o criteria rfl).elim
  | purchaseItem o now auctionId buyerId =>
      obtain ⟨-, rfl⟩ := fires_purchaseItem.mp hfires
      refine @purchaseItem_keeps (fun s' => s.db.SameSearches s'.db) s o now
        auctionId buyerId ?_ ?_ (Database.SameSearches.refl s.db)
      · intro listing hsame
        obtain ⟨hframe, -⟩ := settle_frame s.db o listing buyerId
        refine hsame.trans ?_
        rw [hframe]
        exact ⟨rfl, fun _ => rfl⟩
      · intro listing _ hpaid
        exact hpaid.trans (afterClose_sameSearches _ o.item o.seller auctionId _)
  | cancelListing o auctionId sellerId =>
      obtain ⟨-, rfl⟩ := fires_cancelListing.mp hfires
      exact @cancelListing_keeps (fun s' => s.db.SameSearches s'.db) s o auctionId
        sellerId
        (fun _ _ _ => afterClose_sameSearches s o.item o.seller auctionId _)
        (Database.SameSearches.refl s.db)
  | processExpiredItems o now order =>
      obtain ⟨-, -, rfl⟩ := fires_processExpiredItems.mp hfires
      exact @processExpiredItems_keeps now s (fun s' => s.db.SameSearches s'.db) o
        (fun _ _ _ _ hsame =>
          hsame.trans (Database.sameSearches_updateAuctionItem _ _ _))
        (fun _ _ _ hsame => hsame) order (Database.SameSearches.refl s.db)
  | restart order failsAfter sellers =>
      obtain ⟨hrestart, -⟩ := fires_restart.mp hfires
      obtain ⟨-, hdb, -⟩ := restart_loaded False.elim hrestart
      simp only [hdb]
      exact Database.SameSearches.refl s.db
  | expireKey key => exact (hexpire key rfl).elim

/-- Every event keeps the cache and what is remembered together. -/
theorem Remembers.step (hremembers : Remembers past e.before)
    (hfires : machine.Fires e) (hwell : e.before.WellFiled) :
    Remembers (past ++ [e]) e.after := by
  intro h
  rw [remembered_concat]
  by_cases hexpire : ∃ key, e.input = .expireKey key
  · obtain ⟨s, call, reply, s'⟩ := e
    obtain ⟨key, rfl⟩ := hexpire
    obtain ⟨-, rfl⟩ := fires_expireKey.mp hfires
    simp only [expireKey, Std.ExtTreeMap.getElem?_erase, remember,
      Std.compare_eq_iff_eq]
    split
    · rfl
    · exact hremembers h
  by_cases hsearch : ∃ o criteria, e.input = .searchItems o criteria
  · obtain ⟨s, call, reply, s'⟩ := e
    obtain ⟨o, criteria, rfl⟩ := hsearch
    obtain ⟨result, hresult, rfl⟩ := fires_searchItems.mp hfires
    replace hwell : s.WellFiled := hwell
    replace hremembers : Remembers past s := hremembers
    rcases hwell.searchItems_cases hresult with
      ⟨results, hcached, rfl, rfl⟩ |
        ⟨hmiss, -, ⟨results, rfl, hpopular, rfl⟩ | ⟨rfl, hother⟩⟩
    · simp only [remember, hcached, reduceCtorEq, false_and, and_false, if_false]
      exact hremembers h
    · simp only [remember, hmiss, hpopular, true_and]
      by_cases hredis : s.db.redisAvailable = true
      · rw [Database.cacheSearchResults_available hredis]
        by_cases hstores : o.setex.applied = true ∧ Database.Cacheable results
        · simp only [hstores, and_self, if_true, hredis, and_true,
            Std.ExtTreeMap.getElem?_insert, Std.compare_eq_iff_eq,
            Database.getSearchCacheKey_inj]
          split
          · rfl
          · exact hremembers h
        · simp only [hstores, if_false, and_false]
          exact hremembers h
      · have hsame : s.db.cacheSearchResults o.setex criteria.hash results =
            s.db := by
          simp [Database.cacheSearchResults, hredis]
        simp only [hsame, hredis, Bool.false_eq_true, false_and, and_false,
          if_false]
        exact hremembers h
    · have hnot : remember h (remembered past h)
          ⟨s', .searchItems o criteria, .found result, s'⟩ = remembered past h := by
        cases result with
        | error e => rfl
        | ok results => simp [remember, hother results rfl]
      simp only [hnot]
      exact hremembers h
  · have hsame := step_sameSearches hfires
      (fun o criteria heq => hsearch ⟨o, criteria, heq⟩)
      (fun key heq => hexpire ⟨key, heq⟩)
    have hnot : remember h (remembered past h) e = remembered past h := by
      obtain ⟨s, call, reply, s'⟩ := e
      cases call with
      | searchItems o criteria => exact (hsearch ⟨o, criteria, rfl⟩).elim
      | expireKey key => exact (hexpire ⟨key, rfl⟩).elim
      | _ => rfl
    rw [hsame.2 h, hnot]
    exact hremembers h

/-- The event computed this page for criteria of hash `h` from the house as it
was. -/
def Computed (h : UInt64) (page : List AuctionItem) (e : ServerEvent) : Prop :=
  ∃ o criteria, e.input = .searchItems o criteria ∧ criteria.hash = h ∧
    e.before.searchUncached o.sellers criteria = some (.ok page, e.before.house)

/-- An event leaves what is remembered alone, or it stores the page it
computed, or it is the end of the entry. -/
theorem remember_cases (hfires : machine.Fires e) (hwell : e.before.WellFiled)
    (page : Option (List AuctionItem)) :
    (remember h page e = page ∧
        e.input ≠ .expireKey (Database.getSearchCacheKey h)) ∨
      remember h page e = none ∨
      ∃ results, remember h page e = some results ∧ Computed h results e := by
  obtain ⟨s, call, reply, s'⟩ := e
  replace hwell : s.WellFiled := hwell
  cases call with
  | expireKey key =>
      by_cases hkey : key = Database.getSearchCacheKey h
      · exact Or.inr (Or.inl (by simp [remember, hkey]))
      · exact Or.inl ⟨by simp [remember, hkey], by simp [hkey]⟩
  | searchItems o criteria =>
      obtain ⟨result, hresult, rfl⟩ := fires_searchItems.mp hfires
      cases result with
      | error e => exact Or.inl ⟨rfl, by simp⟩
      | ok results =>
          by_cases hstores : criteria.isPopularSearch ∧ criteria.hash = h ∧
              s.cachedResults o criteria = none ∧ s.db.redisAvailable = true ∧
              o.setex.applied = true ∧ Database.Cacheable results
          · refine Or.inr (Or.inr ⟨results, ?_, o, criteria, rfl, hstores.2.1, ?_⟩)
            · simp only [remember]
              rw [if_pos hstores]
            · rcases hwell.searchItems_cases hresult with
                ⟨_, hcached, -⟩ | ⟨-, huncached, -⟩
              · rw [hstores.2.2.1] at hcached
                cases hcached
              · exact huncached
          · refine Or.inl ⟨?_, by simp⟩
            simp only [remember]
            rw [if_neg hstores]
  | _ => exact Or.inl ⟨rfl, by simp⟩

/-- A remembered page was computed by an earlier search with the same key, and
its entry has not reached the end of its lifetime since. -/
theorem computed_of_remembered
    (hevents : ∀ e ∈ past, machine.Fires e ∧ e.before.WellFiled)
    {page : List AuctionItem} (hpage : remembered past h = some page) :
    ∃ earlier e later, past = earlier ++ e :: later ∧ Computed h page e ∧
      ∀ e' ∈ later, e'.input ≠ .expireKey (Database.getSearchCacheKey h) := by
  induction past using List.reverseRecOn with
  | nil => cases hpage
  | append_singleton past last ih =>
      rw [remembered_concat] at hpage
      obtain ⟨hfires, hwell⟩ := hevents last (by simp)
      rcases remember_cases hfires hwell (remembered past h) with
        ⟨hsame, hinput⟩ | hnone | ⟨results, hresults, hcomputed⟩
      · rw [hsame] at hpage
        obtain ⟨earlier, e, later, rfl, hcomputed, hlater⟩ :=
          ih (fun e he => hevents e (List.mem_append_left _ he)) hpage
        refine ⟨earlier, e, later ++ [last], by simp, hcomputed, ?_⟩
        intro e' he'
        rcases List.mem_append.mp he' with hmem | hmem
        · exact hlater e' hmem
        · rw [List.mem_singleton.mp hmem]
          exact hinput
      · rw [hnone] at hpage
        cases hpage
      · rw [hresults] at hpage
        obtain rfl := Option.some.inj hpage
        exact ⟨past, last, [], rfl, hcomputed, by simp⟩

/-- The search finds the page the cache remembers. -/
def Recalls (past : List ServerEvent) (s : Server) (o : SearchOutcomes)
    (criteria : SearchCriteria) (page : List AuctionItem) : Prop :=
  criteria.isPopularSearch = true ∧ s.db.redisAvailable = true ∧
    o.get = .answered ∧ remembered past criteria.hash = some page

omit [StdSort] in
/-- A search that remembers a page finds it, and any other search finds
nothing. -/
theorem Remembers.cachedResults (hremembers : Remembers past s)
    (o : SearchOutcomes) (criteria : SearchCriteria) :
    (∃ page results, Recalls past s o criteria page ∧
        s.cachedResults o criteria = some results ∧
        results.map shown = page.map shown) ∨
      ((∀ page, ¬ Recalls past s o criteria page) ∧
        s.cachedResults o criteria = none) := by
  unfold Server.cachedResults
  by_cases hpopular : criteria.isPopularSearch = true
  · rw [if_pos hpopular]
    by_cases hread : s.db.redisAvailable = true ∧ o.get = .answered
    · obtain ⟨hredis, hget⟩ := hread
      have hentry := hremembers criteria.hash
      cases hpage : remembered past criteria.hash with
      | none =>
          rw [hpage] at hentry
          refine Or.inr ⟨?_, Database.getCachedSearch_none hentry o.get o.unset⟩
          rintro page ⟨-, -, -, hsome⟩
          rw [hpage] at hsome
          cases hsome
      | some page =>
          rw [hpage] at hentry
          obtain ⟨results, hresults, hback⟩ :=
            Database.getCachedSearch_answered hredis hentry o.unset
          refine Or.inl ⟨page, results, ⟨hpopular, hredis, hget, hpage⟩, ?_,
            map_shown_of_comesBack hback⟩
          rw [hget]
          exact hresults
    · refine Or.inr ⟨fun page hrecalls =>
        hread ⟨hrecalls.2.1, hrecalls.2.2.1⟩, ?_⟩
      unfold Database.getCachedSearch
      by_cases hredis : s.db.redisAvailable = true
      · cases hget : o.get with
        | raised => simp
        | answered => exact (hread ⟨hredis, hget⟩).elim
      · simp [hredis]
  · rw [if_neg hpopular]
    exact Or.inr ⟨fun page hrecalls => hpopular hrecalls.1, rfl⟩

/-- The reply after `past` shows the page the search recalls, which an earlier
search with the same key computed and whose entry has not expired since.  If
there is none, it is what the search computes from the house as it is. -/
def ExplainedBy (past : List ServerEvent) (s : Server) (o : SearchOutcomes)
    (criteria : SearchCriteria)
    (result : Except StoreException (List AuctionItem)) : Prop :=
  (∃ page results, Recalls past s o criteria page ∧ result = .ok results ∧
      results.map shown = page.map shown ∧
      ∃ earlier e later, past = earlier ++ e :: later ∧
        Computed criteria.hash page e ∧
        ∀ e' ∈ later,
          e'.input ≠ .expireKey (Database.getSearchCacheKey criteria.hash)) ∨
    ((∀ page, ¬ Recalls past s o criteria page) ∧
      s.searchUncached o.sellers criteria = some (result, s.house))

/-- In every run that starts without search entries, every reply of a search is
explained by the history. -/
theorem search_reply_of_history {db : Database} {order : List AuctionDocument}
    {failsAfter : Option ℕ} {sellers : ℕ → ReadOutcome} {calls : List Call}
    {es rest : List ServerEvent} {s : Server}
    (hempty : ∀ h, db.redis[Database.getSearchCacheKey h]? = none)
    (hserve : serve db order failsAfter sellers calls = some (es, s))
    (hes : es = past ++ e :: rest) {o : SearchOutcomes}
    {criteria : SearchCriteria}
    {result : Except StoreException (List AuctionItem)}
    (hinput : e.input = .searchItems o criteria)
    (houtput : e.output = .found result) :
    ExplainedBy past e.before o criteria result := by
  obtain ⟨s₀, hstart, hrun⟩ := serve_eq_some.mp hserve
  have hfirst : Remembers [] s₀ := by
    intro h
    rw [(restart_loaded False.elim hstart).2.1]
    exact hempty h
  obtain ⟨-, hbefore⟩ := @Machine.run_history _ _ _ _ (fun _ => True)
    (fun past s => Remembers past s ∧ s.WellFiled)
    (fun past e hfires _ h =>
      ⟨h.1.step hfires h.2, wellFiled_preserves e hfires trivial h.2⟩)
    _ _ _ _ hrun (fun _ _ => trivial) ⟨hfirst, hstart.wellFiled⟩
  obtain ⟨hremembers, hwell⟩ := hbefore past e rest hes
  have hfires := Machine.run_fires hrun
  have hevents : ∀ e' ∈ past, machine.Fires e' ∧ e'.before.WellFiled := by
    intro e' he'
    have hmem : e' ∈ es := by
      rw [hes]
      exact List.mem_append_left _ he'
    exact ⟨hfires e' hmem, ((Machine.run_invariant wellFiled_preserves hrun
      (fun _ _ => trivial) hstart.wellFiled).2 e' hmem).1⟩
  obtain ⟨s, call, reply, s'⟩ := e
  obtain rfl : call = .searchItems o criteria := hinput
  obtain rfl : reply = .found result := houtput
  have hfired : machine.Fires ⟨s, .searchItems o criteria, .found result, s'⟩ :=
    hfires _ (by simp [hes])
  obtain ⟨result', hsearch, heq⟩ := fires_searchItems.mp hfired
  obtain rfl : result = result' := Reply.found.inj heq
  replace hwell : s.WellFiled := hwell
  rcases hremembers.cachedResults o criteria with
    ⟨page, results, hrecalls, hcached, hshown⟩ | ⟨hnone, hmiss⟩
  · left
    replace hcached : s.cachedResults o criteria = some results := hcached
    rcases hwell.searchItems_cases hsearch with
      ⟨results', hcached', rfl, -⟩ | ⟨hmiss, -⟩
    · obtain rfl := Option.some.inj (hcached.symm.trans hcached')
      exact ⟨page, results, hrecalls, rfl, hshown,
        computed_of_remembered hevents hrecalls.2.2.2⟩
    · rw [hcached] at hmiss
      cases hmiss
  · right
    refine ⟨hnone, ?_⟩
    replace hmiss : s.cachedResults o criteria = none := hmiss
    rcases hwell.searchItems_cases hsearch with
      ⟨results, hcached, -⟩ | ⟨-, huncached, -⟩
    · rw [hmiss] at hcached
      cases hcached
    · exact huncached

omit [StdSort] in
/-- The listing is sold between two searches, and the second recalls the page
of the first. -/
theorem search_reply_of_history_market :
    ∃ es s past e result,
      @serve StdSort.insertion market [] none (fun _ => .answered)
        [offer "iron sword", search { itemType := 2 }, purchase 1,
          search { itemType := 2 }] = some (es, s) ∧
      es = past ++ [e] ∧ e.output = .found result ∧
      (remembered past ({ itemType := 2 } : SearchCriteria).hash).isSome ∧
      @ExplainedBy StdSort.insertion past e.before
        ⟨.answered, fun _ => default, fun _ => .answered, .done⟩
        { itemType := 2 } result := by
  obtain ⟨es, s, hserve, hp⟩ :=
    @exists_serve StdSort.insertion market [] none (fun _ => .answered)
      [offer "iron sword", search { itemType := 2 }, purchase 1,
        search { itemType := 2 }]
      (fun es _ => (remembered (es.take 3)
        ({ itemType := 2 } : SearchCriteria).hash).isSome) (by decide +kernel)
  obtain ⟨s₀, -, hrun⟩ := (@serve_eq_some StdSort.insertion ..).mp hserve
  have hinputs := Machine.run_inputs hrun
  have hfour : es.length = 4 := by
    simpa using congrArg List.length hinputs
  obtain ⟨past, e, rfl⟩ : ∃ past e, es = past ++ [e] := by
    rcases List.eq_nil_or_concat' es with rfl | h
    · cases hfour
    · exact h
  have hpast : past.length = 3 := by simpa using hfour
  have hinput : e.input = search { itemType := 2 } := by
    have hlast := congrArg List.getLast? hinputs
    simpa using hlast
  have hfires := Machine.run_fires hrun e (by simp)
  obtain ⟨before, call, reply, after⟩ := e
  obtain rfl : call = search { itemType := 2 } := hinput
  obtain ⟨result, -, rfl⟩ := (@fires_searchItems StdSort.insertion ..).mp hfires
  rw [List.take_append_of_le_length hpast.ge, ← hpast, List.take_length] at hp
  exact ⟨_, s, past, _, result, hserve, rfl, rfl, hp,
    @search_reply_of_history past _ StdSort.insertion market [] none _ _ _ [] s
      (by simp [market]) hserve rfl _ _ _ rfl rfl⟩

end Server
end AuctionServer
