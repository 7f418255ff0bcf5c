import AuctionServer.House.Lifecycle

/-!
# Expired listings

Nothing but the sweep enforces the time a listing expires: a purchase and a
search look at its status only.  After a sweep that ends without an exception
every open listing expires at the time of the sweep or later, whatever became
of its writes; registrations made later expire later still, and closing a
listing opens none.  So this holds in every later state of the same process.
-/

namespace AuctionServer

open AuctionHouse (SameListings)
open Relation (ReflTransGen)

/-- The clock reading of a call that reads the clock. -/
def Call.time : Call → Option Time
  | .registerItem _ now _ _ _ => some now
  | .purchaseItem _ now _ _ => some now
  | .processExpiredItems _ now _ => some now
  | _ => none

namespace Server

/-- Every open listing expires at time `t` or later. -/
def OpenFrom (t : Time) (s : Server) : Prop :=
  ∀ (id : UInt64) (item : AuctionItem),
    s.house.auctionItems[id]? = some item → item.status = .active →
      ¬ item.expirationTime < t

/-- A sweep at time `t` that no exception ended. -/
def Sweeps (t : Time) (e : ServerEvent) : Prop :=
  (∃ o order, e.input = .processExpiredItems o t order) ∧
    e.output = .swept (.ok ())

variable {s s' : Server} {buyers : Set UInt32} {now t : Time} {id : UInt64}

/-! ## What a sweep leaves -/

/-- What is open after closing listings was open before. -/
theorem Closes.open (h : Closes buyers s s') {item : AuctionItem}
    (hitem : s'.house.auctionItems[id]? = some item)
    (hactive : item.status = .active) :
    s.house.auctionItems[id]? = some item := by
  obtain ⟨old, hold, hclosings⟩ := h.entries.ancestor
    (show s'.book.entries id = some item from hitem)
  rcases eq_or_closing hclosings with rfl | hclosing
  · exact hold
  · exact (hclosing.closed hactive).elim

theorem Closes.not_due (h : Closes buyers s s')
    (hdue : ∀ item, ¬ s.Due now id item) (item : AuctionItem) :
    ¬ s'.Due now id item := fun hdue' =>
  hdue item ⟨h.open hdue'.1 hdue'.active, hdue'.2⟩

theorem ClosedAt.not_due (h : s.ClosedAt id) (item : AuctionItem) :
    ¬ s.Due now id item := fun hdue =>
  h item hdue.1 hdue.active

/-- The first loop, unless an exception ends it, leaves none of the ids it
visits due. -/
theorem expireItems_not_due (o : UInt64 → ItemUpdateOutcomes) (ids : List UInt64)
    (s : Server) {expired : List UInt64}
    (hok : (expireItems o now ids s).1 = .ok expired) :
    ∀ id ∈ ids, ∀ item, ¬ (expireItems o now ids s).2.Due now id item := by
  induction ids generalizing s expired with
  | nil => simp
  | cons id ids ih =>
      by_cases hdue : ∃ item, s.Due now id item
      · obtain ⟨item, hdue⟩ := hdue
        rw [expireItems_cons_of_due ids hdue] at hok ⊢
        split at hok
        · cases hok
        · cases hrest : (expireItems o now ids (s.afterExpiry (o id) id item)).1 with
          | error e => simp [hrest, Except.map] at hok
          | ok rest =>
              rw [List.forall_mem_cons]
              refine ⟨?_, ih _ hrest⟩
              exact ((closedAt_afterExpiry (o id)).expireItems o now ids).not_due
      · have hnone : ∀ item, ¬ s.Due now id item := fun item h => hdue ⟨item, h⟩
        rw [expireItems_cons_of_not_due ids hnone] at hok ⊢
        rw [List.forall_mem_cons]
        exact ⟨(@expireItems_closes Set.univ o now ids s).not_due hnone,
          ih s hok⟩

/-- A sweep that ends without an exception has two completed loops. -/
theorem processExpiredItems_ok {o : SweepOutcomes} {order : List UInt64}
    (hok : (s.processExpiredItems o now order).1 = .ok ()) :
    ∃ expired, (expireItems o.item now order s).1 = .ok expired ∧
      SameListings (expireItems o.item now order s).2.house
        (s.processExpiredItems o now order).2.house := by
  obtain ⟨-, -, hreports⟩ := @expireItems_moves o.item now ⟨False, False, False⟩
    False.elim order s
  rcases hexpire : expireItems o.item now order s with ⟨result, swept⟩
  rw [hexpire] at hreports
  cases result with
  | error e => simp [processExpiredItems, hexpire] at hok
  | ok expired =>
      refine ⟨expired, rfl, ?_⟩
      obtain ⟨-, hsame⟩ := removeExpired_moves ⟨False, False, False⟩ o.seller
        expired swept (hreports expired rfl)
      rcases hremove : removeExpired o.seller swept.db expired swept.house with
        ⟨result, house⟩
      rw [hremove] at hsame
      cases result <;> simpa [processExpiredItems, hexpire, hremove] using hsame

theorem openFrom_processExpiredItems {o : SweepOutcomes} {order : List UInt64}
    (horder : order.isPerm s.house.auctionItems.keys = true)
    (hok : (s.processExpiredItems o now order).1 = .ok ()) :
    (s.processExpiredItems o now order).2.OpenFrom now := by
  obtain ⟨expired, hexpired, hsame⟩ := processExpiredItems_ok hok
  intro id item hitem hactive hbefore
  rw [hsame.1] at hitem
  have hold := (@expireItems_closes Set.univ o.item now order s).open
    hitem hactive
  have hmem : id ∈ order := by
    rw [(List.isPerm_iff.mp horder).mem_iff, Std.ExtTreeMap.mem_keys,
      Std.ExtTreeMap.mem_iff_isSome_getElem?, hold]
    rfl
  refine expireItems_not_due o.item order s hexpired id hmem item ⟨hitem, ?_⟩
  simp [isExpired, hactive, hbefore]

/-! ## Later calls -/

theorem OpenFrom.closes (h : s.OpenFrom t) (hcloses : Closes buyers s s') :
    s'.OpenFrom t := fun id item hitem hactive =>
  h id item (hcloses.open hitem hactive) hactive

/-- Seven days from a reading that leaves room for them. -/
theorem not_expiration_lt {now : Time} (hroom : now.toInt + 604800 < 2 ^ 63)
    (hle : t ≤ now) : ¬ now + 7 * 24 * 60 * 60 < t := by
  rw [Int64.lt_iff_toInt_lt, Int64.toInt_add, Int.bmod_def]
  rw [Int64.le_iff_toInt_le] at hle
  have hlow := now.le_toInt
  have hweek : (7 * 24 * 60 * 60 : Int64).toInt = 604800 := by decide
  omega

/-- A call to the same house, made at time `t` or later, opens no listing that
expires before. -/
theorem OpenFrom.step [StdSort] {e : ServerEvent} (h : e.before.OpenFrom t)
    (hfires : machine.Fires e) (hwell : e.before.WellFiled)
    (hprocess : e.input.InProcess)
    (hroom : ∀ now ∈ e.input.time, now.toInt + 604800 < 2 ^ 63)
    (hclock : ∀ now ∈ e.input.time, t ≤ now) : e.after.OpenFrom t := by
  cases hregisters : e.input.isRegistration with
  | false =>
      have hbuyer : e.input.BuyerIn Set.univ := by
        cases e.input <;> trivial
      exact h.closes (step_closes hfires hwell hprocess hbuyer hregisters)
  | true =>
      obtain ⟨s, call, reply, s'⟩ := e
      cases call with
      | registerItem o now sellerId item price =>
          obtain ⟨-, rfl⟩ := fires_registerItem.mp hfires
          intro id item' hitem' hactive
          rcases (registerItem_book s o now sellerId item price).2 with
            hsame | hinsert
          · rw [hsame] at hitem'
            exact h id item' hitem' hactive
          · rw [hinsert, Std.ExtTreeMap.getElem?_insert] at hitem'
            split at hitem'
            · obtain rfl := Option.some.inj hitem'
              exact not_expiration_lt (hroom now rfl) (hclock now rfl)
            · exact h id item' hitem' hactive
      | searchItems o criteria => cases hregisters
      | purchaseItem o now auctionId buyerId => cases hregisters
      | cancelListing o auctionId sellerId => cases hregisters
      | processExpiredItems o now order => cases hregisters
      | restart order failsAfter sellers => cases hregisters
      | expireKey key => cases hregisters

/-- After the events `past`, if their clock never went back: whatever was
completely swept at a time is still open only when it expires no earlier. -/
structure Swept (past : List ServerEvent) (s : Server) : Prop where
  wellFiled : s.WellFiled
  openFrom : (past.filterMap fun e => e.input.time).Pairwise (· ≤ ·) →
    ∀ earlier sweep later t, past = earlier ++ sweep :: later → Sweeps t sweep →
      (∀ e ∈ later, e.input.InProcess) → s.OpenFrom t

theorem Swept.step [StdSort] {past : List ServerEvent} {e : ServerEvent}
    (h : e.before.Swept past) (hfires : machine.Fires e)
    (hroom : ∀ now ∈ e.input.time, now.toInt + 604800 < 2 ^ 63) :
    e.after.Swept (past ++ [e]) := by
  refine ⟨wellFiled_preserves e hfires trivial h.wellFiled, ?_⟩
  intro hclock earlier sweep later t hsplit hsweep hprocess
  rcases List.eq_nil_or_concat later with rfl | ⟨later, last, rfl⟩
  · -- The sweep is the event itself.
    obtain ⟨-, hlast⟩ := List.append_inj' hsplit rfl
    obtain rfl : e = sweep := List.singleton_inj.mp hlast
    obtain ⟨s, call, reply, s'⟩ := e
    obtain ⟨⟨o, order, rfl⟩, rfl⟩ := hsweep
    obtain ⟨horder, hreply, rfl⟩ := fires_processExpiredItems.mp hfires
    exact openFrom_processExpiredItems horder (Reply.swept.inj hreply)
  · -- The sweep was before it.
    rw [List.concat_eq_append, ← List.cons_append, ← List.append_assoc] at hsplit
    obtain ⟨hpast, hlast⟩ := List.append_inj' hsplit rfl
    obtain rfl : e = last := List.singleton_inj.mp hlast
    rw [List.filterMap_append, List.pairwise_append] at hclock
    obtain ⟨hpastClock, -, hbetween⟩ := hclock
    have hbefore := h.openFrom hpastClock earlier sweep later t hpast hsweep
      fun e' he' => hprocess e' (by simp [he'])
    refine hbefore.step hfires h.wellFiled (hprocess e (by simp)) hroom ?_
    intro now hnow
    obtain ⟨o, order, hinput⟩ := hsweep.1
    apply hbetween t ?_ now ?_
    · rw [List.mem_filterMap]
      refine ⟨sweep, by simp [hpast], ?_⟩
      rw [hinput]
      rfl
    · simpa using hnow

/-! ## Deals -/

/-- The event sells no listing that expires before `t`. -/
def SellsFrom (t : Time) (e : ServerEvent) : Prop :=
  ∀ o now auctionId buyerId listing,
    e.input = .purchaseItem o now auctionId buyerId →
      e.output = .purchased true →
      e.before.house.auctionItems[auctionId]? = some listing →
        ¬ listing.expirationTime < t

/-- The event, if a search that bypasses the cache, finds no listing that
expires before `t`. -/
def FindsFrom (t : Time) (e : ServerEvent) : Prop :=
  ∀ o criteria results,
    e.input = .searchItems o criteria →
      e.before.cachedResults o criteria = none →
      e.output = .found (.ok results) →
        ∀ listing ∈ results, ¬ listing.expirationTime < t

theorem OpenFrom.sellsFrom [StdSort] {e : ServerEvent}
    (h : e.before.OpenFrom t) (hfires : machine.Fires e) : SellsFrom t e := by
  intro o now auctionId buyerId listing hinput hsold hlisting
  obtain ⟨s, call, reply, s'⟩ := e
  obtain rfl : call = .purchaseItem o now auctionId buyerId := hinput
  obtain rfl : reply = .purchased true := hsold
  obtain ⟨hreply, -⟩ := fires_purchaseItem.mp hfires
  have htrue : (s.purchaseItem o now auctionId buyerId).1 = true :=
    Reply.purchased.inj hreply
  by_cases hoffer : s.OnOffer auctionId buyerId listing
  · exact h auctionId listing hlisting hoffer.2.1
  · rw [purchaseItem_of_not_onOffer o now] at htrue
    · cases htrue
    · intro listing' hoffer'
      obtain rfl : listing' = listing :=
        Option.some.inj (hoffer'.1.symm.trans hlisting)
      exact hoffer hoffer'

theorem OpenFrom.findsFrom [StdSort] {e : ServerEvent}
    (h : e.before.OpenFrom t) (hfires : machine.Fires e)
    (hwell : e.before.WellFiled) : FindsFrom t e := by
  intro o criteria results hinput hbypass hfound listing hlisting
  obtain ⟨s, call, reply, s'⟩ := e
  obtain rfl : call = .searchItems o criteria := hinput
  obtain rfl : reply = .found (.ok results) := hfound
  obtain ⟨result, hsearch, hreply⟩ := fires_searchItems.mp hfires
  obtain rfl : .ok results = result := Reply.found.inj hreply
  rcases hwell.searchItems_cases hsearch with
    ⟨results', hcached, -⟩ | ⟨-, huncached, -⟩
  · exact absurd (hbypass.symm.trans hcached) (by simp)
  · obtain ⟨hactive, id, hitem⟩ :=
      (hwell.searchUncached_known huncached).2 results rfl listing hlisting
    exact h id listing hitem hactive

/-- User 8 buys at a time of its own, and the store answers. -/
def purchaseAt (now : Time) (auctionId : UInt64) : Call :=
  .purchaseItem ⟨.answered, ⟨.answered, .done⟩, ⟨.answered, .done⟩,
    ⟨.done, .done⟩, .answered⟩ now auctionId 8

/-- A sweep of the only listing, and the store answers. -/
def sweepAt (now : Time) : Call :=
  .processExpiredItems ⟨fun _ => ⟨.done, .done⟩, fun _ => .answered⟩ now [1]

end Server
end AuctionServer
