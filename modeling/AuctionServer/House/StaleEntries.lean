import AuctionServer.House.Runs

/-!
# Stale cache entries

A page that a search computes holds open listings only.  A page read from the
cache is as old as its entry, and nothing that closes a listing drops the
search entries that hold it; every record read from one is marked active.
-/

namespace AuctionServer

namespace Server

/-- The ids in the entry a search finds, if it finds one. -/
def cachedIds (s : Server) (get : ReadOutcome) (criteria : SearchCriteria) :
    Option (List UInt64) :=
  if criteria.isPopularSearch then
    (s.db.getCachedSearch get (fun _ => default) criteria.hash).map
      (List.map AuctionItem.id)
  else none

theorem getCachedSearch_ids (db : Database) (get : ReadOutcome)
    (unset unset' : ℕ → UnsetFields) (criteriaHash : UInt64) :
    (db.getCachedSearch get unset criteriaHash).map (List.map AuctionItem.id) =
      (db.getCachedSearch get unset' criteriaHash).map
        (List.map AuctionItem.id) := by
  unfold Database.getCachedSearch
  split
  · cases get with
    | raised => rfl
    | answered =>
        cases db.redis[Database.getSearchCacheKey criteriaHash]? with
        | none => rfl
        | some cached =>
            cases helems : cached.elements with
            | none => simp [helems]
            | some elems =>
                simpa [helems] using cachedItems_map (f := AuctionItem.id)
                  (fun _ _ => rfl) unset unset' elems
  · rfl

theorem cachedIds_eq (s : Server) (o : SearchOutcomes)
    (criteria : SearchCriteria) :
    s.cachedIds o.get criteria =
      (s.cachedResults o criteria).map (List.map AuctionItem.id) := by
  unfold cachedIds cachedResults
  split
  · exact getCachedSearch_ids s.db o.get _ o.unset criteria.hash
  · rfl

/-- The house has no closed listing under the id. -/
def NotClosed (s : Server) (id : UInt64) : Prop :=
  ∀ item, s.house.auctionItems[id]? = some item → item.status = .active

/-- If the event is a search, no listing it returns is closed. -/
def OffersOpen (e : ServerEvent) : Prop :=
  ∀ o criteria results, e.input = .searchItems o criteria →
    e.output = .found (.ok results) →
      ∀ item ∈ results, e.before.NotClosed item.id

/-- If the event is a search that finds a cache entry, no listing of the entry
has been closed. -/
def FindsFresh (e : ServerEvent) : Prop :=
  ∀ o criteria ids, e.input = .searchItems o criteria →
    e.before.cachedIds o.get criteria = some ids →
      ∀ id ∈ ids, e.before.NotClosed id

variable [StdSort]

/-- One search offers a closed listing exactly when it finds it in the cache. -/
theorem offersOpen_iff {e : ServerEvent} (hfires : machine.Fires e)
    (hwell : e.before.WellFiled) : OffersOpen e ↔ FindsFresh e := by
  obtain ⟨s, call, reply, s'⟩ := e
  replace hwell : s.WellFiled := hwell
  constructor
  · intro hoffers o criteria ids hinput hids id hid
    obtain rfl : call = .searchItems o criteria := hinput
    obtain ⟨result, hsearch, rfl⟩ := fires_searchItems.mp hfires
    replace hids : s.cachedIds o.get criteria = some ids := hids
    rw [cachedIds_eq] at hids
    obtain ⟨results, hcached, rfl⟩ := Option.map_eq_some_iff.mp hids
    have hresult : result = .ok results := by
      rcases hwell.searchItems_cases hsearch with
        ⟨results', hcached', rfl, -⟩ | ⟨hnone, -, -⟩
      · rw [hcached] at hcached'
        rw [Option.some.inj hcached']
      · rw [hcached] at hnone
        cases hnone
    obtain ⟨item, hitem, rfl⟩ := List.mem_map.mp hid
    exact hoffers o criteria results rfl (by rw [hresult]) item hitem
  · intro hfresh o criteria results hinput houtput item hitem
    obtain rfl : call = .searchItems o criteria := hinput
    obtain ⟨result, hsearch, rfl⟩ := fires_searchItems.mp hfires
    obtain rfl : result = .ok results := by simpa using houtput
    rcases hwell.searchItems_cases hsearch with
      ⟨results', hcached, heq, -⟩ | ⟨-, huncached, -⟩
    · obtain rfl := Except.ok.inj heq
      apply hfresh o criteria (results.map AuctionItem.id) rfl
      · rw [cachedIds_eq]
        exact congrArg (Option.map (List.map AuctionItem.id)) hcached
      · exact List.mem_map_of_mem hitem
    · -- A page computed just now consists of open listings.
      obtain ⟨-, hopen⟩ := hwell.searchUncached_known huncached
      obtain ⟨hactive, id, hfound⟩ := hopen results rfl item hitem
      intro item' hitem'
      replace hitem' : s.house.auctionItems[item.id]? = some item' := hitem'
      rw [hwell.keyed id item hfound, hfound] at hitem'
      obtain rfl := Option.some.inj hitem'
      exact hactive

/-- The event is a search that returns a closed listing. -/
def offersClosed (e : ServerEvent) : Bool :=
  match e.input, e.output with
  | .searchItems _ _, .found (.ok results) =>
      results.any fun item =>
        (e.before.house.auctionItems[item.id]?).any fun held =>
          decide (held.status ≠ .active)
  | _, _ => false

omit [StdSort] in
theorem not_offersOpen_of_offersClosed {e : ServerEvent}
    (h : offersClosed e = true) : ¬ OffersOpen e := by
  obtain ⟨s, call, reply, s'⟩ := e
  intro hopen
  unfold offersClosed at h
  split at h
  · next o criteria results hinput houtput =>
      obtain ⟨item, hitem, hheld⟩ := List.any_eq_true.mp h
      obtain ⟨held, hfound, hclosed⟩ := (Option.any_eq_true _ _).mp hheld
      have hactive := hopen o criteria results hinput houtput item hitem held hfound
      exact of_decide_eq_true hclosed hactive
  · cases h

end Server
end AuctionServer
