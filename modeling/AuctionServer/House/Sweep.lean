import AuctionServer.House.Moves

/-!
# The expiry sweep

`processExpiredItems` closes every due listing it reaches and then withdraws
the ones whose update was reported as done.  The first exception ends it.
A listing that is closed stays closed through the rest of the sweep, so a
listing whose update fails is left closed in memory.
-/

namespace AuctionServer

open Relation (ReflTransGen)
open AuctionHouse (SameListings)

namespace Server

/-- No open listing is kept under `id`. -/
def ClosedAt (s : Server) (id : UInt64) : Prop :=
  ∀ item, s.house.auctionItems[id]? = some item → item.status ≠ .active

/-- The listing kept under `id` is due at time `now`. -/
def Due (s : Server) (now : Time) (id : UInt64) (item : AuctionItem) : Prop :=
  s.house.auctionItems[id]? = some item ∧ isExpired now item = true

/-- The listing as it is written when it expires. -/
def expiredListing (item : AuctionItem) : AuctionItem :=
  { item with status := .expired }

/-- The server after one listing expires. -/
def afterExpiry (s : Server) (o : ItemUpdateOutcomes) (id : UInt64)
    (item : AuctionItem) : Server where
  house := s.house.setItem id (expiredListing item)
  db := (s.db.updateAuctionItem o (expiredListing item)).2

variable {o : UInt64 → ItemUpdateOutcomes} {now : Time} {s : Server}
  {id : UInt64} {item : AuctionItem}

theorem Due.active (h : s.Due now id item) : item.status = .active := by
  have hdue := h.2
  simp only [isExpired, Bool.and_eq_true, beq_iff_eq] at hdue
  exact hdue.1

theorem closedAt_afterExpiry (o : ItemUpdateOutcomes) :
    (s.afterExpiry o id item).ClosedAt id := by
  intro item' hitem'
  rw [afterExpiry, setItem_self] at hitem'
  obtain rfl := Option.some.inj hitem'
  simp [expiredListing]

theorem ClosedAt.afterExpiry {id' : UInt64} (h : s.ClosedAt id')
    (o : ItemUpdateOutcomes) : (s.afterExpiry o id item).ClosedAt id' := by
  rcases eq_or_ne id id' with rfl | hne
  · exact closedAt_afterExpiry o
  · intro item' hitem'
    rw [Server.afterExpiry, setItem_of_ne _ _ hne] at hitem'
    exact h item' hitem'

theorem expireItems_cons_of_not_due (ids : List UInt64)
    (h : ∀ item, ¬ s.Due now id item) :
    expireItems o now (id :: ids) s = expireItems o now ids s := by
  cases hitem : s.house.auctionItems[id]? with
  | none => simp [expireItems, hitem]
  | some item =>
      have hdue : isExpired now item = false := by
        simpa using fun hdue => h item ⟨hitem, hdue⟩
      simp [expireItems, hitem, hdue]

/-- One due listing: an exception of its update ends the loop, otherwise the
loop goes on from the server in which it has expired. -/
theorem expireItems_cons_of_due (ids : List UInt64) (h : s.Due now id item) :
    expireItems o now (id :: ids) s =
      match (s.db.updateAuctionItem (o id) (expiredListing item)).1 with
      | .error e => (.error e, s.afterExpiry (o id) id item)
      | .ok modified =>
          ((expireItems o now ids (s.afterExpiry (o id) id item)).1.map
              fun expired => if modified then id :: expired else expired,
            (expireItems o now ids (s.afterExpiry (o id) id item)).2) := by
  rcases hupdate : s.db.updateAuctionItem (o id) (expiredListing item) with
    ⟨result, db⟩
  have hafter : s.afterExpiry (o id) id item =
      { house := s.house.setItem id (expiredListing item), db } := by
    simp [afterExpiry, hupdate]
  simp only [expiredListing] at hupdate hafter
  rw [hafter]
  obtain ⟨hitem, hdue⟩ := h
  cases result with
  | error e => simp [expireItems, hitem, hdue, hupdate]
  | ok modified =>
      rcases hrest : expireItems o now ids
        { house := s.house.setItem id { item with status := .expired }, db } with
        ⟨rest, s'⟩
      cases modified with
      | false =>
          cases rest <;>
            simp [expireItems, hitem, hdue, hupdate, hrest, Except.map]
      | true =>
          cases rest <;>
            simp [expireItems, hitem, hdue, hupdate, hrest, Except.map]

/-- What survives every expiry survives the first loop. -/
theorem expireItems_keeps {P : Server → Prop}
    (hexpires : ∀ s id item, s.Due now id item → P s →
      P (s.afterExpiry (o id) id item)) (ids : List UInt64) (h : P s) :
    P (expireItems o now ids s).2 := by
  induction ids generalizing s with
  | nil => exact h
  | cons id ids ih =>
      by_cases hdue : ∃ item, s.Due now id item
      · obtain ⟨item, hdue⟩ := hdue
        have hexpired := hexpires s id item hdue h
        rw [expireItems_cons_of_due ids hdue]
        split
        · exact hexpired
        · exact ih hexpired
      · rw [expireItems_cons_of_not_due ids fun item hd => hdue ⟨item, hd⟩]
        exact ih h

/-- What survives every removal survives the second loop. -/
theorem removeExpired_keeps {P : AuctionHouse → Prop}
    {seller : UInt64 → ReadOutcome} {db : Database}
    (hremoves : ∀ house id item, P house →
      P (house.removeFromIndices db (seller id) item).2) (ids : List UInt64)
    {house : AuctionHouse} (h : P house) :
    P (removeExpired seller db ids house).2 := by
  induction ids generalizing house with
  | nil => exact h
  | cons id ids ih =>
      cases hitem : house.auctionItems[id]? with
      | none =>
          simp only [removeExpired, hitem]
          exact ih h
      | some item =>
          have hremoved := hremoves house id item h
          rcases hresult : house.removeFromIndices db (seller id) item with
            ⟨result, house'⟩
          rw [hresult] at hremoved
          simp only [removeExpired, hitem, hresult]
          cases result with
          | error e => exact hremoved
          | ok u => exact ih hremoved

/-- What survives every expiry and every removal survives a sweep. -/
theorem processExpiredItems_keeps {P : Server → Prop} {o : SweepOutcomes}
    (hexpires : ∀ s id item, s.Due now id item → P s →
      P (s.afterExpiry (o.item id) id item))
    (hremoves : ∀ s id item, P s →
      P { s with
        house := (s.house.removeFromIndices s.db (o.seller id) item).2 })
    (order : List UInt64) (h : P s) :
    P (s.processExpiredItems o now order).2 := by
  have hexpired := expireItems_keeps hexpires order h
  rcases hexpire : expireItems o.item now order s with ⟨result, s'⟩
  rw [hexpire] at hexpired
  cases result with
  | error e =>
      simp only [processExpiredItems, hexpire]
      exact hexpired
  | ok ids =>
      have hremoved := @removeExpired_keeps (fun house => P { s' with house })
        o.seller s'.db (fun house => hremoves { s' with house }) ids s'.house
        hexpired
      rcases hremove : removeExpired o.seller s'.db ids s'.house with
        ⟨result, house⟩
      rw [hremove] at hremoved
      cases result <;> simpa [processExpiredItems, hexpire, hremove] using hremoved

variable {g : Guarantees}

theorem expiry_move (h : s.Due now id item)
    (hwrites : g.writes → ∀ id, (o id).update = .done) :
    Move g s (s.afterExpiry (o id) id item) :=
  close_move h.1 h.active (by simp [expiredListing]) rfl fun hw =>
    hwrites hw id

/-- What the first loop keeps: it only closes listings, a closed one stays
closed, and the ids it reports are closed. -/
theorem expireItems_moves (hwrites : g.writes → ∀ id, (o id).update = .done)
    (ids : List UInt64) (s : Server) :
    ReflTransGen (Move g) s (expireItems o now ids s).2 ∧
      (∀ id, s.ClosedAt id → (expireItems o now ids s).2.ClosedAt id) ∧
      ∀ expired, (expireItems o now ids s).1 = .ok expired →
        ∀ id ∈ expired, (expireItems o now ids s).2.ClosedAt id := by
  induction ids generalizing s with
  | nil =>
      refine ⟨ReflTransGen.refl, fun id h => h, ?_⟩
      intro expired hexpired
      obtain rfl : [] = expired := by simpa [expireItems] using hexpired
      simp
  | cons id ids ih =>
      by_cases hdue : ∃ item, s.Due now id item
      · obtain ⟨item, hdue⟩ := hdue
        obtain ⟨hmoves, hkeeps, hreports⟩ :=
          ih (s.afterExpiry (o id) id item)
        have hfirst : Move g s (s.afterExpiry (o id) id item) :=
          expiry_move hdue hwrites
        have hclosed : (s.afterExpiry (o id) id item).ClosedAt id :=
          closedAt_afterExpiry (o id)
        rw [expireItems_cons_of_due ids hdue]
        split
        · refine ⟨ReflTransGen.single hfirst, fun id' h => h.afterExpiry _, ?_⟩
          intro expired hexpired
          cases hexpired
        · refine ⟨ReflTransGen.head hfirst hmoves,
            fun id' h => hkeeps id' (h.afterExpiry _), ?_⟩
          intro expired hexpired id' hid'
          cases hrest : (expireItems o now ids
            (s.afterExpiry (o id) id item)).1 with
          | error e => simp [hrest, Except.map] at hexpired
          | ok rest =>
              have hsplit : id' = id ∨ id' ∈ rest := by
                simp only [hrest, Except.map, Except.ok.injEq] at hexpired
                subst hexpired
                split at hid'
                · exact List.mem_cons.mp hid'
                · exact Or.inr hid'
              rcases hsplit with rfl | hid'
              · exact hkeeps id' hclosed
              · exact hreports rest hrest id' hid'
      · rw [expireItems_cons_of_not_due ids fun item h => hdue ⟨item, h⟩]
        exact ih s

theorem ClosedAt.expireItems (h : s.ClosedAt id)
    (o : UInt64 → ItemUpdateOutcomes) (now : Time) (ids : List UInt64) :
    (Server.expireItems o now ids s).2.ClosedAt id :=
  (@expireItems_moves o now ⟨False, False, False⟩ False.elim ids s).2.1 id h

/-- The second loop only withdraws ids whose listings are closed. -/
theorem removeExpired_moves (g : Guarantees) (seller : UInt64 → ReadOutcome)
    (ids : List UInt64) (s : Server) (hclosed : ∀ id ∈ ids, s.ClosedAt id) :
    ReflTransGen (Move g) s
        { s with house := (removeExpired seller s.db ids s.house).2 } ∧
      SameListings s.house (removeExpired seller s.db ids s.house).2 := by
  induction ids generalizing s with
  | nil => exact ⟨ReflTransGen.refl, rfl, rfl⟩
  | cons id ids ih =>
      have hrest : ∀ id' ∈ ids, s.ClosedAt id' := fun id' hid' =>
        hclosed id' (List.mem_cons_of_mem _ hid')
      cases hitem : s.house.auctionItems[id]? with
      | none =>
          simp only [removeExpired, hitem]
          exact ih s hrest
      | some item =>
          have hmove : Move g s
              { s with
                house := (s.house.removeFromIndices s.db (seller id) item).2 } :=
            withdraw_move (seller id) hitem (hclosed id (by simp) item hitem)
          obtain ⟨hsame, -⟩ :=
            s.house.removeFromIndices_cases s.db (seller id) item
          rcases hresult : s.house.removeFromIndices s.db (seller id) item with
            ⟨result, house⟩
          rw [hresult] at hmove hsame
          simp only [removeExpired, hitem, hresult]
          cases result with
          | error e => exact ⟨ReflTransGen.single hmove, hsame⟩
          | ok u =>
              have hrest' : ∀ id' ∈ ids,
                  Server.ClosedAt { s with house } id' := by
                intro id' hid' item' hitem'
                exact hrest id' hid' item' (by rw [← hsame.1]; exact hitem')
              obtain ⟨hmoves, hsame'⟩ := ih { s with house } hrest'
              exact ⟨ReflTransGen.head hmove hmoves,
                hsame'.1.trans hsame.1, hsame'.2.trans hsame.2⟩

theorem processExpiredItems_moves (s : Server) {o : SweepOutcomes} (now : Time)
    (order : List UInt64) (hwrites : g.writes → ∀ id, (o.item id).update = .done) :
    ReflTransGen (Move g) s (s.processExpiredItems o now order).2 ∧
      ∀ id, (expireItems o.item now order s).2.ClosedAt id →
        (s.processExpiredItems o now order).2.ClosedAt id := by
  obtain ⟨hmoves, -, hreports⟩ :=
    @expireItems_moves o.item now g hwrites order s
  rcases hexpire : expireItems o.item now order s with ⟨result, s'⟩
  rw [hexpire] at hmoves hreports
  cases result with
  | error e =>
      simp only [processExpiredItems, hexpire]
      exact ⟨hmoves, fun id h => h⟩
  | ok expired =>
      obtain ⟨hremoves, hsame⟩ :=
        removeExpired_moves g o.seller expired s' (hreports expired rfl)
      rcases hremove : removeExpired o.seller s'.db expired s'.house with
        ⟨result, house⟩
      rw [hremove] at hremoves hsame
      have hafter : (s.processExpiredItems o now order).2 =
          { s' with house } := by
        cases result <;> simp [processExpiredItems, hexpire, hremove]
      rw [hafter]
      refine ⟨hmoves.trans hremoves, ?_⟩
      intro id hclosed item hitem
      exact hclosed item (by rw [← hsame.1]; exact hitem)

end Server
end AuctionServer
