import AuctionServer.House.Runs
import AuctionServer.Session.Answers

/-!
# Replies from the search cache

Three lists of fields have to agree: what `cacheSearchResults` writes, what
`getCachedSearch` reads, and what `handle_search_items` puts in a reply.  A page
of open listings comes back from its entry listing by listing, and is written in
a reply as it was before.
-/

namespace AuctionServer

open ClientSession Server

namespace ClientSession

/-- Listings that show the same are written the same. -/
theorem itemJson_of_shown {items items' : List AuctionItem}
    (h : items.map shown = items'.map shown) :
    items.map itemJson = items'.map itemJson := by
  induction items generalizing items' with
  | nil =>
      rw [List.map_nil, eq_comm, List.map_eq_nil_iff] at h
      rw [h]
  | cons item items ih =>
      cases items' with
      | nil => cases h
      | cons item' items' =>
          obtain ⟨hshown, hrest⟩ := List.cons.inj h
          simp only [shown, Shown.mk.injEq] at hshown
          simp only [List.map_cons, ih hrest, itemJson, hshown]

end ClientSession

/-- The listings agree in what a search reply shows, in status, type, rarity and
level. -/
structure SameListing (item item' : AuctionItem) : Prop where
  auctionId : item'.id = item.id
  itemId : item'.item.id = item.item.id
  name : item'.item.name = item.item.name
  sellerId : item'.sellerId = item.sellerId
  price : item'.price = item.price
  registrationTime : item'.registrationTime = item.registrationTime
  status : item'.status = item.status
  type : item'.item.type = item.item.type
  rarity : item'.item.rarity = item.item.rarity
  level : item'.item.level = item.item.level

variable {item item' : AuctionItem} {results results' : List AuctionItem}

theorem ComesBack.sameListing (h : ComesBack item item')
    (hactive : item.status = .active) : SameListing item item' := by
  have hshown := h.shown
  simp only [AuctionServer.shown, Shown.mk.injEq] at hshown
  obtain ⟨hid, hitemId, hname, hseller, hprice, htime⟩ := hshown
  exact ⟨hid, hitemId, hname, hseller, hprice, htime,
    h.status.trans hactive.symm, h.type, h.rarity, h.level⟩

theorem sameListings_of_comesBack
    (h : List.Forall₂ ComesBack results results')
    (hactive : ∀ item ∈ results, item.status = .active) :
    List.Forall₂ SameListing results results' := by
  induction h with
  | nil => exact List.Forall₂.nil
  | cons hback _ ih =>
      rw [List.forall_mem_cons] at hactive
      exact List.Forall₂.cons (hback.sameListing hactive.1) (ih hactive.2)

namespace Database

/-- A page of open listings with well-formed names, stored by
`cacheSearchResults` and read back from its entry by `getCachedSearch`, has the
same listings in the same order, and the reply to a search shows the same. -/
theorem cached_page_reads_back {db db' : Database} {criteriaHash : UInt64}
    {setex : WriteOutcome} (hactive : ∀ item ∈ results, item.status = .active)
    (hnames : ∀ item ∈ results, utf8Valid item.item.name = true)
    (hredis : db.redisAvailable = true) (hstores : setex.applied = true)
    (hredis' : db'.redisAvailable = true)
    (hentry : db'.redis[getSearchCacheKey criteriaHash]? =
      (db.cacheSearchResults setex criteriaHash results).redis[
        getSearchCacheKey criteriaHash]?)
    (unset : ℕ → UnsetFields) :
    ∃ results', db'.getCachedSearch .answered unset criteriaHash = some results' ∧
      results'.length = results.length ∧
      List.Forall₂ SameListing results results' ∧
      results'.map itemJson = results.map itemJson ∧
      ∀ criteria, searchReply criteria (.ok results') =
        searchReply criteria (.ok results) := by
  have hstored : db'.redis[getSearchCacheKey criteriaHash]? =
      some (Json.array (results.map cachedJson)) := by
    rw [hentry, cacheSearchResults_available hredis,
      if_pos ⟨hstores, cacheable_iff.mpr hnames⟩]
    exact Std.ExtTreeMap.getElem?_insert_self
  obtain ⟨results', hread, hback⟩ :=
    getCachedSearch_answered hredis' hstored unset
  have hlength := hback.length_eq.symm
  have hjson := itemJson_of_shown (map_shown_of_comesBack hback)
  refine ⟨results', hread, hlength, sameListings_of_comesBack hback hactive,
    hjson, ?_⟩
  intro criteria
  rw [searchReply, searchReply, searchResponse, searchResponse, hjson, hlength]

/-- Two open listings of user 7. -/
def openPair : List AuctionItem :=
  [newListing 1 1000 7 (itemNamed "iron sword") 60,
    newListing 2 1005 7 (itemNamed "oak shield") 45]

/-- The pair is stored and read back. -/
theorem cached_page_reads_back_pair :
    ∃ results', (market.cacheSearchResults .done 3 openPair).getCachedSearch
        .answered (fun _ => default) 3 = some results' ∧
      results'.length = openPair.length ∧
      List.Forall₂ SameListing openPair results' ∧
      results'.map itemJson = openPair.map itemJson ∧
      ∀ criteria, searchReply criteria (.ok results') =
        searchReply criteria (.ok openPair) :=
  cached_page_reads_back (by decide) (by decide +kernel) rfl rfl
    (by decide +kernel) rfl (fun _ => default)

end Database
end AuctionServer
