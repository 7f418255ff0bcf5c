import AuctionServer.House.Paging
import AuctionServer.Session.Answers
import AuctionServer.Session.Authentication

/-!
# Reading a search page by page

A client asks for page one, takes the number of pages from `total_count` and
`items_per_page` of the reply, and asks for the pages one after the other.
The total that `handle_search_items` writes is the length of the page, so the
client stops after the first one.
-/

namespace AuctionServer

open ClientSession

/-- The same search on another page. -/
def SearchCriteria.onPage (criteria : SearchCriteria) (page : ℕ) :
    SearchCriteria :=
  { criteria with page := UInt32.ofNat page }

/-! ## What the selection depends on -/

section Selecting

variable {db : Database} {sellers : UInt64 → ReadOutcome}
  {criteria : SearchCriteria} {house : AuctionHouse}

theorem matchesCriteria_onPage (seller : ReadOutcome) (item : AuctionItem)
    (page : ℕ) :
    matchesCriteria db seller item (criteria.onPage page) =
      matchesCriteria db seller item criteria := rfl

theorem filterMatches_onPage (page : ℕ) (ids : List UInt64) :
    AuctionHouse.filterMatches db sellers (criteria.onPage page) ids house =
      AuctionHouse.filterMatches db sellers criteria ids house := by
  induction ids generalizing house with
  | nil => rfl
  | cons id ids ih =>
      simp only [AuctionHouse.filterMatches, matchesCriteria_onPage, ih]

/-- The listing is let through by the filter. -/
def passes (db : Database) (seller : ReadOutcome) (criteria : SearchCriteria)
    (item : AuctionItem) : Bool :=
  match matchesCriteria db seller item criteria with
  | .ok matched => matched
  | .error _ => false

/-- When the filter raises nothing, it keeps the listings it lets through. -/
theorem filterMatches_ok {ids : List UInt64}
    (hknown : ∀ id ∈ ids, id ∈ house.auctionItems)
    {results : List AuctionItem} {house' : AuctionHouse}
    (h : AuctionHouse.filterMatches db sellers criteria ids house =
      (.ok results, house')) :
    results = ids.filterMap fun id =>
      house.auctionItems[id]?.filter (passes db (sellers id) criteria) := by
  induction ids generalizing results house' with
  | nil =>
      simp only [AuctionHouse.filterMatches, Prod.mk.injEq, Except.ok.injEq] at h
      exact h.1.symm
  | cons id ids ih =>
      obtain ⟨item, hitem⟩ :=
        Server.exists_item_of_mem (hknown id List.mem_cons_self)
      have hsubscript : house.subscript id = (item, house) := by
        simp [AuctionHouse.subscript, hitem]
      simp only [AuctionHouse.filterMatches, hsubscript] at h
      rw [List.filterMap_cons, hitem, Option.filter]
      cases hmatches : matchesCriteria db (sellers id) item criteria with
      | error e => simp [hmatches] at h
      | ok matched =>
          rcases hrest : AuctionHouse.filterMatches db sellers criteria ids house
            with ⟨rest, house''⟩
          rw [hmatches, hrest] at h
          cases rest with
          | error e => simp at h
          | ok rest =>
              have hkept := ih
                (fun id' hid' => hknown id' (List.mem_cons_of_mem _ hid')) hrest
              simp only [Prod.mk.injEq, Except.ok.injEq] at h
              rw [← h.1, ← hkept, passes, hmatches]
              cases matched <;> rfl

end Selecting

namespace Server

variable {s : Server} {sellers : UInt64 → ReadOutcome}
  {criteria : SearchCriteria}

/-- The candidates of a search that meet its criteria. -/
def matched (s : Server) (sellers : UInt64 → ReadOutcome)
    (criteria : SearchCriteria) : List AuctionItem :=
  match s.house.candidates criteria with
  | none => []
  | some ids => ids.toList.filterMap fun id =>
      s.house.auctionItems[id]?.filter (passes s.db (sellers id) criteria)

variable [StdSort]

theorem selectItems_onPage (page : ℕ) :
    s.selectItems sellers (criteria.onPage page) =
      s.selectItems sellers criteria := by
  have hcandidates : s.house.candidates (criteria.onPage page) =
      s.house.candidates criteria := rfl
  simp only [selectItems, hcandidates, filterMatches_onPage]
  rfl

/-- A search selects the candidates that meet its criteria. -/
theorem WellFiled.selectItems_matched (h : s.WellFiled)
    {selected : List AuctionItem} {house : AuctionHouse}
    (hselect : s.selectItems sellers criteria = some (.ok selected, house)) :
    house = s.house ∧ selected.Perm (s.matched sellers criteria) := by
  cases hids : s.house.candidates criteria with
  | none => simp [selectItems, hids] at hselect
  | some ids =>
      have hknown : ∀ id ∈ ids.toList, id ∈ s.house.auctionItems := fun id hid =>
        h.candidates_known hids (Std.ExtTreeSet.mem_toList.mp hid)
      have hhouse := (@filterMatches_known criteria s.db sellers s.house
        ids.toList hknown).1
      rcases hfilter : AuctionHouse.filterMatches s.db sellers criteria
        ids.toList s.house with ⟨filtered, house'⟩
      rw [hfilter] at hhouse
      cases filtered with
      | error e => simp [selectItems, hids, hfilter] at hselect
      | ok filtered =>
          simp only [selectItems, hids, hfilter, Option.some.injEq,
            Prod.mk.injEq, Except.ok.injEq] at hselect
          obtain ⟨rfl, rfl⟩ := hselect
          refine ⟨hhouse, (sortResults_perm _ _ _).trans ?_⟩
          rw [filterMatches_ok hknown hfilter, matched, hids]

omit [StdSort] in
theorem WellFiled.matched_ids (h : s.WellFiled) :
    ((s.matched sellers criteria).map AuctionItem.id).Nodup := by
  unfold matched
  split
  · exact List.nodup_nil
  · next ids _ =>
      have hids : ids.toList.Pairwise fun a b => a < b :=
        Std.ExtTreeSet.ordered_toList.imp fun hab => Std.compare_eq_lt.mp hab
      rw [List.nodup_iff_pairwise_ne, List.pairwise_map]
      refine List.Pairwise.filterMap _ ?_ hids
      intro a b hab x hx y hy
      obtain ⟨hx, -⟩ := Option.filter_eq_some_iff.mp hx
      obtain ⟨hy, -⟩ := Option.filter_eq_some_iff.mp hy
      rw [h.keyed a x hx, h.keyed b y hy]
      exact UInt64.ne_of_lt hab

/-- What is selected are listings of different ids. -/
theorem WellFiled.selectItems_ids (h : s.WellFiled)
    {selected : List AuctionItem} {house : AuctionHouse}
    (hselect : s.selectItems sellers criteria = some (.ok selected, house)) :
    (selected.map AuctionItem.id).Nodup := by
  obtain ⟨-, hperm⟩ := h.selectItems_matched hselect
  exact (hperm.map AuctionItem.id).nodup_iff.mpr h.matched_ids

/-- Without Redis, a search is answered with the page of what it selects. -/
theorem WellFiled.searchItems_page (h : s.WellFiled)
    (hredis : s.db.redisAvailable = false)
    {selected : List AuctionItem} {house : AuctionHouse}
    (hselect : s.selectItems sellers criteria = some (.ok selected, house))
    {o : SearchOutcomes} (hsellers : o.sellers = sellers) (page : ℕ) :
    s.searchItems o (criteria.onPage page) =
      some (.ok (applyPagination selected (UInt32.ofNat page)
        criteria.itemsPerPage), s) := by
  obtain ⟨rfl, -⟩ := h.selectItems_matched hselect
  have hcached : s.cachedResults o (criteria.onPage page) = none := by
    simp [cachedResults, Database.getCachedSearch, hredis]
  have huncached : s.searchUncached o.sellers (criteria.onPage page) =
      some (.ok (applyPagination selected (UInt32.ofNat page)
        criteria.itemsPerPage), s.house) := by
    rw [searchUncached, hsellers, selectItems_onPage, hselect]
    rfl
  simp [searchItems, hcached, huncached, Database.cacheSearchResults, hredis]

end Server

/-! ## What the client reads -/

/-- The listings a reply shows. -/
def itemsOf (reply : Json) : List Json :=
  ((reply.field "items").bind Json.elements).getD []

/-- The pages up to the last one that the first reply counts show the listings,
each of them once. -/
def PagesShow (replies : ℕ → Json) (items : List AuctionItem) : Prop :=
  ∃ total itemsPerPage : ℕ,
    (replies 1).field "total_count" = some (.integer total) ∧
      (replies 1).field "items_per_page" = some (.integer itemsPerPage) ∧
      (Pages.pageCount total itemsPerPage * itemsPerPage < 2 ^ 32 →
        ((List.range (Pages.pageCount total itemsPerPage)).flatMap fun p =>
            itemsOf (replies (p + 1))).Perm (items.map itemJson) ∧
          (items.map AuctionItem.id).Nodup)

variable {criteria : SearchCriteria} {items : List AuctionItem}

theorem itemsOf_searchResponse :
    itemsOf (searchResponse criteria items) = items.map itemJson := rfl

theorem totalCount_searchResponse :
    (searchResponse criteria items).field "total_count" =
      some (.integer items.length) := rfl

theorem itemsPerPage_searchResponse :
    (searchResponse criteria items).field "items_per_page" =
      some (.integer criteria.itemsPerPage.toNat) := rfl

/-- The replies to a search, page by page. -/
def pageReplies (criteria : SearchCriteria) (selected : List AuctionItem)
    (page : ℕ) : Json :=
  searchReply (criteria.onPage page)
    (.ok (applyPagination selected (UInt32.ofNat page) criteria.itemsPerPage))

variable {selected : List AuctionItem}

/-- The first page is the first results. -/
theorem applyPagination_one (hitems : 1 ≤ criteria.itemsPerPage) :
    applyPagination selected (UInt32.ofNat 1) criteria.itemsPerPage =
      selected.take criteria.itemsPerPage.toNat := by
  have hpages := applyPagination_pages selected hitems
    (show 1 * criteria.itemsPerPage.toNat < 2 ^ 32 by
      rw [Nat.one_mul]
      exact criteria.itemsPerPage.toNat_lt)
  simpa using hpages

/-- The first reply counts its own page, so the client asks for one page at
most. -/
theorem pageCount_le_one {n itemsPerPage : ℕ} (hpos : 1 ≤ itemsPerPage) :
    Pages.pageCount (min itemsPerPage n) itemsPerPage ≤ 1 := by
  have hle : min itemsPerPage n ≤ itemsPerPage := Nat.min_le_left _ _
  exact Nat.le_of_lt_succ (Nat.div_lt_of_lt_mul (by omega))

/-- A client that stops where the first reply tells it to is shown everything
exactly when one page is enough. -/
theorem pagesShow_iff (hids : (selected.map AuctionItem.id).Nodup)
    (hitems : 1 ≤ criteria.itemsPerPage) :
    PagesShow (pageReplies criteria selected) selected ↔
      selected.length ≤ criteria.itemsPerPage.toNat ∧ NamesDump selected := by
  have hpos : 1 ≤ criteria.itemsPerPage.toNat := hitems
  have hfirst : pageReplies criteria selected 1 =
      searchReply (criteria.onPage 1)
        (.ok (selected.take criteria.itemsPerPage.toNat)) := by
    rw [pageReplies, applyPagination_one hitems]
  have hlength : (selected.take criteria.itemsPerPage.toNat).length =
      min criteria.itemsPerPage.toNat selected.length := List.length_take
  have hone := pageCount_le_one (n := selected.length) hpos
  constructor
  · rintro ⟨total, itemsPerPage, htotal, hper, hpages⟩
    rw [hfirst] at htotal hper
    by_cases hdump : NamesDump (selected.take criteria.itemsPerPage.toNat)
    · rw [searchReply_of_dumps hdump, totalCount_searchResponse, hlength] at htotal
      rw [searchReply_of_dumps hdump, itemsPerPage_searchResponse] at hper
      have htotal' : min criteria.itemsPerPage.toNat selected.length = total := by
        exact_mod_cast Json.integer.inj (Option.some.inj htotal)
      have hper' : criteria.itemsPerPage.toNat = itemsPerPage := by
        exact_mod_cast Json.integer.inj (Option.some.inj hper)
      subst htotal' hper'
      have hbound := Nat.mul_le_mul_right criteria.itemsPerPage.toNat hone
      have hlt := criteria.itemsPerPage.toNat_lt
      obtain ⟨hperm, -⟩ := hpages (by omega)
      -- No page, or the first one, is all the client is shown.
      have hshown : selected.length ≤
          min criteria.itemsPerPage.toNat selected.length := by
        have hsame := hperm.length_eq
        rcases Nat.le_one_iff_eq_zero_or_eq_one.mp hone with hzero | hpage
        · rw [hzero] at hsame
          simp only [List.range_zero, List.flatMap_nil, List.length_nil,
            List.length_map] at hsame
          omega
        · rw [hpage] at hsame
          simp only [List.range_one, List.flatMap_singleton, Nat.zero_add, hfirst,
            searchReply_of_dumps hdump, itemsOf_searchResponse, List.length_map,
            hlength] at hsame
          exact hsame.ge
      have hfits : selected.length ≤ criteria.itemsPerPage.toNat :=
        hshown.trans (Nat.min_le_left _ _)
      rw [List.take_of_length_le hfits] at hdump
      exact ⟨hfits, hdump⟩
    · rw [searchReply_of_not_dumps hdump] at htotal
      cases htotal
  · rintro ⟨hfits, hdump⟩
    rw [List.take_of_length_le hfits, searchReply_of_dumps hdump] at hfirst
    refine ⟨selected.length, criteria.itemsPerPage.toNat, ?_, ?_, ?_⟩
    · rw [hfirst]
      rfl
    · rw [hfirst]
      rfl
    intro hbound
    have hshown : ∀ page, itemsOf (pageReplies criteria selected page) =
        (applyPagination selected (UInt32.ofNat page)
          criteria.itemsPerPage).map itemJson := by
      intro page
      rw [pageReplies, searchReply_of_dumps (hdump.mono fun item hitem =>
        Server.mem_of_mem_applyPagination hitem), itemsOf_searchResponse]
    have hpages := applyPagination_pages selected hitems hbound
    rw [List.take_of_length_le (Pages.le_pageCount_mul hpos)] at hpages
    simp only [hshown]
    rw [← List.map_flatMap, hpages]
    exact ⟨List.Perm.refl _, hids⟩

namespace Server

variable [StdSort] [JsonText] {s : Server} {sellers : UInt64 → ReadOutcome}
  {criteria : SearchCriteria}

/-- One message after the other, each in its own circumstances. -/
def ask (o : ℕ → MessageOutcomes) (messages : ℕ → Bytes) :
    ℕ → Handler Server Unit
  | 0 => pure ()
  | n + 1 => do
      ask o messages n
      processMessage (Crowd.circumstances (o (n + 1))) (messages (n + 1))

/-- The reply to the search for a page. -/
def pageReply (s : Server) (o : MessageOutcomes) (criteria : SearchCriteria)
    (page : ℕ) : Option Json :=
  (s.searchItems o.search (criteria.onPage page)).map fun (result, _) =>
    searchReply (criteria.onPage page) (seen result)

omit [JsonText] in
theorem WellFiled.pageReply_eq (h : s.WellFiled)
    (hredis : s.db.redisAvailable = false)
    {selected : List AuctionItem} {house : AuctionHouse}
    (hselect : s.selectItems sellers criteria = some (.ok selected, house))
    {o : MessageOutcomes} (hsellers : o.search.sellers = sellers) (page : ℕ) :
    s.pageReply o criteria page = some (pageReplies criteria selected page) := by
  rw [pageReply, h.searchItems_page hredis hselect hsellers page]
  rfl

/-- Searches in turn find the house as it was, and each sends its reply. -/
theorem ask_eq {o : ℕ → MessageOutcomes} {messages : ℕ → Bytes}
    {replies : ℕ → List AuctionItem}
    (hmessages : ∀ page, 1 ≤ page → page < 2 ^ 32 →
      SearchesFor (messages page) (criteria.onPage page))
    (hreplies : ∀ page, s.searchItems (o page).search (criteria.onPage page) =
      some (.ok (replies page), s))
    {exchange : Exchange Server} (hhouse : exchange.house = s) {n : ℕ}
    (hn : n < 2 ^ 32) :
    ask o messages n exchange = some (.ok (),
      (List.range n).foldl (fun exchange p => answered exchange s
        (searchReply (criteria.onPage (p + 1)) (.ok (replies (p + 1)))))
        exchange) := by
  induction n with
  | zero => rfl
  | succ n ih =>
      have hbefore := ih (by omega)
      set asked := (List.range n).foldl (fun exchange p => answered exchange s
        (searchReply (criteria.onPage (p + 1)) (.ok (replies (p + 1)))))
        exchange with hasked
      have hstays : asked.house = s := by
        rw [hasked]
        cases n with
        | zero => exact hhouse
        | succ n =>
            rw [List.range_succ, List.foldl_append]
            rfl
      obtain ⟨data, hparse, htype, hcriteria⟩ :=
        hmessages (n + 1) (by omega) hn
      have hcall : (Crowd.circumstances (o (n + 1))).house.searchItems
          (criteriaOf data) asked.house =
          some (.ok (replies (n + 1)), s) := by
        rw [hstays, ← hcriteria]
        simp [Crowd.circumstances, calls, hreplies, seen, Except.mapError]
      have hlast := processMessage_search hparse htype hcall
      rw [← hcriteria] at hlast
      rw [List.range_succ, List.foldl_append]
      exact Program.bind_eq_some.mpr (Or.inr ⟨(), asked, hbefore, hlast⟩)

/-- A client that pages through a search is shown everything the search selects
exactly when at most one page of candidates meets the criteria, and their names
can be written. -/
theorem paging_complete_iff (hreach : s.Reachable)
    (hredis : s.db.redisAvailable = false) (hitems : 1 ≤ criteria.itemsPerPage)
    {selected : List AuctionItem} {house : AuctionHouse}
    (hselect : s.selectItems sellers criteria = some (.ok selected, house))
    {o : ℕ → MessageOutcomes} (hsellers : ∀ page, (o page).search.sellers = sellers)
    {messages : ℕ → Bytes}
    (hmessages : ∀ page, 1 ≤ page → page < 2 ^ 32 →
      SearchesFor (messages page) (criteria.onPage page))
    {exchange : Exchange Server} (hhouse : exchange.house = s) :
    ∃ replies : ℕ → Json,
      (∀ page, s.pageReply (o page) criteria page = some (replies page)) ∧
      (∀ n < 2 ^ 32, ask o messages n exchange = some (.ok (),
        (List.range n).foldl
          (fun exchange p => answered exchange s (replies (p + 1))) exchange)) ∧
      (PagesShow replies selected ↔
        (s.matched sellers criteria).length ≤ criteria.itemsPerPage.toNat ∧
          NamesDump (s.matched sellers criteria)) := by
  have hwell := hreach.wellFiled
  obtain ⟨-, hperm⟩ := hwell.selectItems_matched hselect
  have hfound := fun page =>
    hwell.searchItems_page hredis hselect (hsellers page) page
  refine ⟨pageReplies criteria selected, ?_, ?_, ?_⟩
  · exact fun page => hwell.pageReply_eq hredis hselect (hsellers page) page
  · intro n hn
    exact ask_eq hmessages hfound hhouse hn
  · rw [pagesShow_iff (hwell.selectItems_ids hselect) hitems, hperm.length_eq]
    have hsame : NamesDump selected ↔ NamesDump (s.matched sellers criteria) :=
      forall_congr' fun item => by rw [hperm.mem_iff]
    rw [hsame]

/-! ## One page and two -/

omit [StdSort] [JsonText]

/-- A market whose server has no Redis. -/
def quietMarket : Database :=
  { market with redisAvailable := false }

/-- The listings offered one after the other, and what a search selects. -/
def selectedNames (names : List String) (criteria : SearchCriteria)
    (p : Server → List AuctionItem → Bool) : Bool :=
  (@serve StdSort.insertion quietMarket [] none (fun _ => .answered)
      (names.map offer)).any fun r =>
    !r.2.db.redisAvailable &&
      ((@selectItems StdSort.insertion r.2 (fun _ => .answered) criteria).any
        fun found => found.1.toOption.any (p r.2))

theorem exists_selected {names : List String} {criteria : SearchCriteria}
    {p : Server → List AuctionItem → Bool}
    (h : selectedNames names criteria p = true) :
    ∃ s selected house, @Reachable StdSort.insertion s ∧
      s.db.redisAvailable = false ∧
      @selectItems StdSort.insertion s (fun _ => .answered) criteria =
        some (.ok selected, house) ∧ p s selected = true := by
  obtain ⟨⟨es, s⟩, hserve, hp⟩ := (Option.any_eq_true _ _).mp h
  rw [Bool.and_eq_true, Bool.not_eq_true'] at hp
  obtain ⟨hredis, hp⟩ := hp
  obtain ⟨⟨found, house⟩, hselect, hp⟩ := (Option.any_eq_true _ _).mp hp
  cases found with
  | error e => cases hp
  | ok selected =>
      exact ⟨s, selected, house, ⟨quietMarket, [], none, fun _ => .answered, _,
        es, hserve⟩, hredis, hselect, hp⟩

/-- A parser that takes a message for the search of the page of its length. -/
@[reducible] def lengthText : JsonText where
  parse message := .ok (.object
    [("type", text "search_items"), ("page", .integer message.length)])
  text _ := []

theorem searchesFor_lengthText (page : ℕ) :
    @SearchesFor lengthText (List.replicate page 0)
      (({} : SearchCriteria).onPage page) := by
  refine ⟨_, rfl, rfl, ?_⟩
  have hpage : UInt32.ofInt (page : ℤ) = UInt32.ofNat page := by
    apply UInt32.toNat_inj.mp
    rw [UInt32.ofInt, UInt32.toNat_ofNat', UInt32.toNat_ofNat']
    omega
  rw [List.length_replicate, SearchCriteria.onPage, ← hpage]
  rfl

/-- A single listing is shown on one page. -/
theorem paging_complete_sword :
    ∃ s selected, ∃ replies : ℕ → Json, @Reachable StdSort.insertion s ∧
      (∀ page, @pageReply StdSort.insertion s default {} page =
        some (replies page)) ∧
      selected.length = 1 ∧ PagesShow replies selected := by
  obtain ⟨s, selected, house, hreach, hredis, hselect, hp⟩ :=
    @exists_selected ["iron sword"] {}
      (fun s selected => selected.length == 1 &&
        (s.matched (fun _ => .answered) {}).length == 1 &&
          (s.matched (fun _ => .answered) {}).all fun item =>
            utf8Valid item.item.name)
      (by decide +kernel)
  simp only [Bool.and_eq_true, beq_iff_eq, List.all_eq_true] at hp
  obtain ⟨⟨hlength, hmatched⟩, hnames⟩ := hp
  obtain ⟨replies, hreplies, -, hpages⟩ :=
    @paging_complete_iff StdSort.insertion lengthText s _ {} hreach hredis
      (by decide) _ _ hselect (fun _ => default) (fun _ => rfl)
      (fun page => List.replicate page 0)
      (fun page _ _ => searchesFor_lengthText page)
      ⟨ClientSession.initial, s⟩ rfl
  refine ⟨s, selected, replies, hreach, hreplies, hlength, hpages.mpr ⟨?_, hnames⟩⟩
  rw [hmatched]
  decide

/-- Of two listings, one to a page, the client is shown the first. -/
theorem paging_stops_early :
    ∃ s selected house, ∃ replies : ℕ → Json, @Reachable StdSort.insertion s ∧
      s.db.redisAvailable = false ∧
      @selectItems StdSort.insertion s (fun _ => .answered)
        { itemsPerPage := 1 } = some (.ok selected, house) ∧
      (∀ page, @pageReply StdSort.insertion s default { itemsPerPage := 1 } page =
        some (replies page)) ∧
      ¬ PagesShow replies selected := by
  obtain ⟨s, selected, house, hreach, hredis, hselect, hlength⟩ :=
    @exists_selected ["iron sword", "oak bow"] { itemsPerPage := 1 }
      (fun _ selected => selected.length == 2) (by decide +kernel)
  have hwell := @Reachable.wellFiled StdSort.insertion s hreach
  refine ⟨s, selected, house, pageReplies { itemsPerPage := 1 } selected, hreach,
    hredis, hselect, ?_, ?_⟩
  · exact @WellFiled.pageReply_eq StdSort.insertion _ _ _ hwell hredis _ _ hselect
      _ rfl
  · rw [pagesShow_iff (@WellFiled.selectItems_ids _ _ _ StdSort.insertion hwell _ _
      hselect) (by decide)]
    rintro ⟨hfits, -⟩
    rw [beq_iff_eq.mp hlength] at hfits
    exact absurd hfits (by decide)

end Server
end AuctionServer
