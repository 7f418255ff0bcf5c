import AuctionServer.House.WholeCalls

/-!
# Calls that are interrupted

A cache entry that expires between two steps of a call might as well have
expired before the call.  A process that dies between two steps leaves the
stores as a call does whose remaining store calls all fail.
-/

namespace AuctionServer

open Relation (ReflTransGen)

/-! ## Expiry in the middle of a call -/

/-- A database without the cache entry. -/
def Database.dropKey (db : Database) (key : String) : Database :=
  { db with redis := db.redis.erase key }

theorem WriteOutcome.store_map {α β : Type} (w : WriteOutcome) (f : α → β)
    (old new : α) : w.store (f old) (f new) = f (w.store old new) := by
  simp only [store]
  split <;> rfl

namespace Database

variable {db : Database}

theorem updateUserBalanceStep_dropKey (db : Database) (key : String)
    (m : BalanceProgress) (o : BalanceOutcomes) :
    (db.dropKey key).updateUserBalanceStep m o =
      Prod.map (fun db => db.dropKey key) id (db.updateUserBalanceStep m o) := by
  cases m with
  | updating c current new =>
      have hstore := o.update.store_map (fun db => db.dropKey key) db
        (db.setBalance c.userId new)
      exact Prod.ext hstore rfl
  | finding c =>
      have huser : (db.dropKey key).findUser c.userId = db.findUser c.userId := rfl
      cases hfind : o.find with
      | raised => simp [updateUserBalanceStep, hfind]
      | answered =>
          cases hdoc : db.findUser c.userId with
          | none => simp [updateUserBalanceStep, hfind, huser, hdoc]
          | some doc =>
              cases hbalance : doc.balance with
              | none => simp [updateUserBalanceStep, hfind, huser, hdoc, hbalance]
              | some balance =>
                  by_cases hneg : balance + c.amount < 0
                  · simp [updateUserBalanceStep, hfind, huser, hdoc, hbalance, hneg]
                  · simp [updateUserBalanceStep, hfind, huser, hdoc, hbalance, hneg]

theorem dropKey_comm (db : Database) (key key' : String) :
    (db.dropKey key).dropKey key' = (db.dropKey key').dropKey key := by
  simp only [dropKey]
  congr 1
  apply Std.ExtTreeMap.ext_getElem?
  intro k
  simp only [Std.ExtTreeMap.getElem?_erase]
  split <;> split <;> rfl

theorem updateAuctionItemStep_dropKey (db : Database) (key : String)
    (m : ItemWrite) (w : WriteOutcome) :
    (db.dropKey key).updateAuctionItemStep m w =
      Prod.map (fun db => db.dropKey key) id (db.updateAuctionItemStep m w) := by
  cases m with
  | updating item =>
      have hstore : w.store (db.dropKey key) ((db.dropKey key).setAuction item) =
          (w.store db (db.setAuction item)).dropKey key :=
        w.store_map (fun db => db.dropKey key) db (db.setAuction item)
      by_cases hraised : ∃ applied, w = .raised applied
      · obtain ⟨applied, rfl⟩ := hraised
        exact Prod.ext hstore rfl
      · have hw : ∀ applied, w ≠ .raised applied := fun applied heq =>
          hraised ⟨applied, heq⟩
        rw [(@updateAuctionItem_of_answered (db.dropKey key) w hw item).1,
          (@updateAuctionItem_of_answered db w hw item).1]
        exact Prod.ext hstore (by rw [hstore]; rfl)
  | deleting item modified =>
      have hstore : w.store (db.dropKey key)
          ((db.dropKey key).dropKey (getItemCacheKey item.id)) =
            (w.store db (db.dropKey (getItemCacheKey item.id))).dropKey key := by
        rw [dropKey_comm]
        exact w.store_map (fun db => db.dropKey key) db
          (db.dropKey (getItemCacheKey item.id))
      cases w with
      | raised applied => exact Prod.ext hstore rfl
      | done => exact Prod.ext hstore rfl
      | refused applied => exact Prod.ext hstore rfl

theorem getCachedSearch_dropKey {get : ReadOutcome} {unset : ℕ → UnsetFields}
    {hash : UInt64} (h : db.getCachedSearch get unset hash = none) (key : String) :
    (db.dropKey key).getCachedSearch get unset hash = none := by
  by_cases hredis : db.redisAvailable = true
  · cases get with
    | raised => simp [getCachedSearch]
    | answered =>
        have hentry : (db.dropKey key).redis[getSearchCacheKey hash]? = none ∨
            (db.dropKey key).redis[getSearchCacheKey hash]? =
              db.redis[getSearchCacheKey hash]? := by
          simp only [dropKey, Std.ExtTreeMap.getElem?_erase]
          split
          · exact .inl rfl
          · exact .inr rfl
        rcases hentry with hgone | hsame
        · simp [getCachedSearch, hgone]
        · rw [← h]
          simp only [getCachedSearch, hsame]
          rfl
  · simp [getCachedSearch, dropKey, hredis]

/-- Without the store the balance update ends at its next step. -/
theorem updateUserBalanceStep_gone (db : Database) (m : BalanceProgress) :
    ∃ c, db.updateUserBalanceStep m ⟨.raised, .raised false⟩ =
      (db, .inr (c, false)) := by
  cases m with
  | finding c => exact ⟨c, rfl⟩
  | updating c current new => exact ⟨c, rfl⟩

/-- Without the stores the write of a listing ends at its next step. -/
theorem updateAuctionItemStep_gone (db : Database) (m : ItemWrite) :
    ∃ result, db.updateAuctionItemStep m (.raised false) = (db, .inr result) ∧
      result ≠ .ok true := by
  cases m with
  | updating item => exact ⟨.ok false, rfl, by simp⟩
  | deleting item modified => exact ⟨.error .redis, rfl, by simp⟩

end Database

namespace Server

variable [StdSort] {s s' : Server} {m m' : CallProgress} {e : Encounter}

/-- An entry that expires before a step that goes on might as well have
expired after it. -/
theorem advance_expireKey (h : s.advance m e = some (s', .inl m')) (key : String) :
    (s.expireKey key).advance m e = some (s'.expireKey key, .inl m') := by
  have hhouse : (s.expireKey key).house = s.house := rfl
  have huser : ∀ u, (s.expireKey key).db.getUserInfo e.read u =
      s.db.getUserInfo e.read u := fun _ => rfl
  have hbalance : ∀ m, (s.expireKey key).db.updateUserBalanceStep m
      ⟨e.read, e.write⟩ = Prod.map (fun db => db.dropKey key) id
        (s.db.updateUserBalanceStep m ⟨e.read, e.write⟩) := fun m =>
    s.db.updateUserBalanceStep_dropKey key m ⟨e.read, e.write⟩
  have hitem : ∀ m, (s.expireKey key).db.updateAuctionItemStep m e.write =
      Prod.map (fun db => db.dropKey key) id
        (s.db.updateAuctionItemStep m e.write) := fun m =>
    s.db.updateAuctionItemStep_dropKey key m e.write
  cases m with
  | saving sellerId item price =>
      let listing := newListing s.house.nextAuctionId e.now sellerId item price
      have hsave : (s.expireKey key).db.saveAuctionItem e.write listing =
          Prod.map id (fun db => db.dropKey key)
            (s.db.saveAuctionItem e.write listing) :=
        Prod.ext rfl (e.write.store_map (fun db : Database => db.dropKey key) s.db
          { s.db with auctions := s.db.auctions ++ [itemToBson listing] })
      unfold advance at h ⊢
      simp only [hhouse] at h ⊢
      rw [hsave]
      rcases hsaved : s.db.saveAuctionItem e.write listing with ⟨_ | _, db⟩
      · simp only [listing] at hsaved
        simp [hsaved] at h
      · simp only [listing] at hsaved
        simp only [hsaved] at h
        cases h
        rfl
  | filing item listing => cases h
  | looking criteria =>
      unfold advance at h ⊢
      simp only [hhouse] at h ⊢
      split at h
      · cases h
      · next hmiss =>
          obtain ⟨ids, hids, heq⟩ := Option.map_eq_some_iff.mp h
          cases heq
          have hmiss' : (if criteria.isPopularSearch then
              (s.expireKey key).db.getCachedSearch e.read e.unset criteria.hash
              else none) = none := by
            split
            · next hpopular =>
                rw [if_pos hpopular] at hmiss
                exact Database.getCachedSearch_dropKey hmiss key
            · rfl
          simp only [hmiss', hids, Option.map_some]
  | matching criteria ids results =>
      cases ids with
      | nil => cases h
      | cons id ids =>
          rcases hsubscript : s.house.subscript id with ⟨item, house⟩
          have hmatches :
              matchesCriteria (s.expireKey key).db e.read item criteria =
                matchesCriteria s.db e.read item criteria := rfl
          unfold advance at h ⊢
          simp only [hhouse, hsubscript, hmatches] at h ⊢
          cases hmatched : matchesCriteria s.db e.read item criteria with
          | error ex => simp [hmatched] at h
          | ok matched =>
              simp only [hmatched] at h ⊢
              cases h
              rfl
  | checking auctionId buyerId =>
      unfold advance at h ⊢
      simp only [hhouse, huser] at h ⊢
      cases hlisting : s.house.auctionItems[auctionId]? with
      | none => simp [hlisting] at h
      | some listing =>
          simp only [hlisting] at h ⊢
          by_cases hactive : listing.status = .active
          · by_cases hown : listing.sellerId = buyerId
            · simp [hactive, hown] at h
            · rw [if_neg (not_not_intro hactive), if_neg hown] at h ⊢
              cases hbuyer : s.db.getUserInfo e.read buyerId with
              | error ex => simp [hbuyer] at h
              | ok info =>
                  cases info with
                  | none => simp [hbuyer] at h
                  | some buyer =>
                      simp only [hbuyer] at h ⊢
                      by_cases hpays : buyer.balance < listing.price
                      · simp [hpays] at h
                      · rw [if_neg hpays] at h ⊢
                        cases h
                        rfl
          · simp [hactive] at h
  | crediting auctionId buyerId listing m =>
      unfold advance at h ⊢
      simp only [hbalance] at h ⊢
      rcases hstep : s.db.updateUserBalanceStep m ⟨e.read, e.write⟩ with
        ⟨db, m' | ⟨c, _ | _⟩⟩
      · simp only [hstep] at h
        cases h
        rfl
      · simp [hstep] at h
      · simp only [hstep] at h
        cases h
        rfl
  | debiting auctionId buyerId listing m =>
      unfold advance at h ⊢
      simp only [hbalance] at h ⊢
      rcases hstep : s.db.updateUserBalanceStep m ⟨e.read, e.write⟩ with
        ⟨db, m' | ⟨c, _ | _⟩⟩
      · simp only [hstep] at h
        cases h
        rfl
      · simp [hstep] at h
      · simp only [hstep] at h
        cases h
        rfl
  | selling sold m =>
      unfold advance at h ⊢
      simp only [hitem] at h ⊢
      rcases hstep : s.db.updateAuctionItemStep m e.write with ⟨db, m' | ex | _ | _⟩
      · simp only [hstep] at h
        cases h
        rfl
      · simp [hstep] at h
      · simp [hstep] at h
      · simp only [hstep] at h
        cases h
        rfl
  | handingOver sold => cases h
  | withdrawing auctionId sellerId =>
      unfold advance at h ⊢
      simp only [hhouse] at h ⊢
      cases hlisting : s.house.auctionItems[auctionId]? with
      | none => simp [hlisting] at h
      | some listing =>
          simp only [hlisting] at h ⊢
          by_cases hactive : listing.status = .active
          · by_cases hseller : listing.sellerId = sellerId
            · rw [if_neg (not_not_intro hactive),
                if_neg (not_not_intro hseller)] at h ⊢
              cases h
              rfl
            · simp [hactive, hseller] at h
          · simp [hactive] at h
  | cancelling cancelled m =>
      unfold advance at h ⊢
      simp only [hitem] at h ⊢
      rcases hstep : s.db.updateAuctionItemStep m e.write with ⟨db, m' | ex | _ | _⟩
      · simp only [hstep] at h
        cases h
        rfl
      · simp [hstep] at h
      · simp [hstep] at h
      · simp only [hstep] at h
        cases h
        rfl
  | removing cancelled => cases h
  | sweeping =>
      unfold advance at h ⊢
      simp only [hhouse] at h ⊢
      by_cases horder : e.order.isPerm s.house.auctionItems.keys = true
      · rw [if_pos horder] at h ⊢
        cases h
        rfl
      · rw [if_neg horder] at h
        cases h
  | expiring now ids expiredIds =>
      cases ids with
      | nil =>
          cases h
          rfl
      | cons id ids =>
          unfold advance at h ⊢
          simp only [hhouse] at h ⊢
          cases hlisting : s.house.auctionItems[id]? with
          | none =>
              simp only [hlisting] at h ⊢
              cases h
              rfl
          | some item =>
              simp only [hlisting] at h ⊢
              by_cases hexpired : isExpired now item = true
              · rw [if_pos hexpired] at h ⊢
                cases h
                rfl
              · rw [if_neg hexpired] at h ⊢
                cases h
                rfl
  | storing now id ids expiredIds m =>
      unfold advance at h ⊢
      simp only [hitem] at h ⊢
      rcases hstep : s.db.updateAuctionItemStep m e.write with ⟨db, m' | ex | _ | _⟩
      · simp only [hstep] at h
        cases h
        rfl
      · simp [hstep] at h
      · simp only [hstep] at h
        cases h
        rfl
      · simp only [hstep] at h
        cases h
        rfl
  | clearing expiredIds =>
      cases expiredIds with
      | nil => cases h
      | cons id ids =>
          have hremove : ∀ item,
              s.house.removeFromIndices (s.expireKey key).db e.read item =
                s.house.removeFromIndices s.db e.read item := fun _ => rfl
          unfold advance at h ⊢
          simp only [hhouse, hremove] at h ⊢
          cases hlisting : s.house.auctionItems[id]? with
          | none =>
              simp only [hlisting] at h ⊢
              cases h
              rfl
          | some item =>
              simp only [hlisting] at h ⊢
              rcases hremoved : s.house.removeFromIndices s.db e.read item with
                ⟨ex | u, house⟩
              · simp [hremoved] at h
              · simp only [hremoved] at h ⊢
                cases h
                rfl

/-! ## A crash in the middle of a call -/

/-- A store that is gone: every call to it throws, and does nothing. -/
def gone (order : List UInt64) : Encounter where
  now := default
  read := .raised
  write := .raised false
  unset := fun _ => default
  order := order

omit [StdSort] in
theorem restart_of_db (h : s'.db = s.db) (order : List AuctionDocument)
    (failsAfter : Option ℕ) (sellers : ℕ → ReadOutcome) :
    s'.restart order failsAfter sellers = s.restart order failsAfter sellers := by
  obtain ⟨house, db⟩ := s
  obtain ⟨house', db'⟩ := s'
  obtain rfl : db' = db := h
  rfl

/-- The call can end without another change to the stores. -/
def CanStop (s : Server) (m : CallProgress) : Prop :=
  ∃ r u, houseCalls.Returns s m r u ∧ u.db = s.db

theorem CanStop.of_last {u : Server} {r : Reply} (order : List UInt64)
    (h : s.advance m (gone order) = some (u, .inr r)) (hdb : u.db = s.db) :
    CanStop s m :=
  ⟨r, u, .last h, hdb⟩

theorem CanStop.of_goes (order : List UInt64)
    (h : s.advance m (gone order) = some (s', .inl m')) (hdb : s'.db = s.db)
    (hrest : CanStop s' m') : CanStop s m := by
  obtain ⟨r, u, hreturns, hlast⟩ := hrest
  exact ⟨r, u, .goes h hreturns, hlast.trans hdb⟩

theorem canStop_matching (criteria : SearchCriteria) (ids : List UInt64) :
    ∀ (s : Server) (results : List AuctionItem),
      CanStop s (.matching criteria ids results) := by
  induction ids with
  | nil =>
      intro s results
      refine .of_last [] rfl ?_
      change (s.showResults (.raised false) criteria results).2.db = s.db
      simp only [showResults]
      split
      · simp only [Database.cacheSearchResults]
        split
        · split <;> rfl
        · rfl
      · rfl
  | cons id ids ih =>
      intro s results
      rcases hsubscript : s.house.subscript id with ⟨item, house⟩
      cases hmatched : matchesCriteria s.db .raised item criteria with
      | error ex =>
          have hstep : s.advance (.matching criteria (id :: ids) results)
              (gone []) = some ({ s with house }, .inr (.found (.error ex))) := by
            unfold advance
            simp only [gone, hsubscript, hmatched]
          exact .of_last [] hstep rfl
      | ok matched =>
          have hstep : s.advance (.matching criteria (id :: ids) results)
              (gone []) = some ({ s with house }, .inl (.matching criteria ids
                (if matched then results ++ [item] else results))) := by
            unfold advance
            simp only [gone, hsubscript, hmatched]
          exact .of_goes [] hstep rfl (ih _ _)

theorem canStop_clearing (ids : List UInt64) :
    ∀ s : Server, CanStop s (.clearing ids) := by
  induction ids with
  | nil => exact fun s => .of_last [] rfl rfl
  | cons id ids ih =>
      intro s
      cases hitem : s.house.auctionItems[id]? with
      | none =>
          have hstep : s.advance (.clearing (id :: ids)) (gone []) =
              some (s, .inl (.clearing ids)) := by
            unfold advance
            simp only [hitem]
          exact .of_goes [] hstep rfl (ih s)
      | some item =>
          rcases hremoved : s.house.removeFromIndices s.db .raised item with
            ⟨ex | u, house⟩
          · have hstep : s.advance (.clearing (id :: ids)) (gone []) =
                some ({ s with house }, .inr (.swept (.error ex))) := by
              unfold advance
              simp only [gone, hitem, hremoved]
            exact .of_last [] hstep rfl
          · have hstep : s.advance (.clearing (id :: ids)) (gone []) =
                some ({ s with house }, .inl (.clearing ids)) := by
              unfold advance
              simp only [gone, hitem, hremoved]
            exact .of_goes [] hstep rfl (ih _)

theorem canStop_expiring (now : Time) (ids : List UInt64) :
    ∀ (s : Server) (expiredIds : List UInt64),
      CanStop s (.expiring now ids expiredIds) := by
  induction ids with
  | nil =>
      intro s expiredIds
      have hstep : s.advance (.expiring now [] expiredIds) (gone []) =
          some (s, .inl (.clearing expiredIds)) := rfl
      exact .of_goes [] hstep rfl (canStop_clearing expiredIds s)
  | cons id ids ih =>
      intro s expiredIds
      cases hitem : s.house.auctionItems[id]? with
      | none =>
          have hstep : s.advance (.expiring now (id :: ids) expiredIds) (gone []) =
              some (s, .inl (.expiring now ids expiredIds)) := by
            unfold advance
            simp only [hitem]
          exact .of_goes [] hstep rfl (ih s expiredIds)
      | some item =>
          by_cases hexpired : isExpired now item = true
          · let expired := { item with status := .expired }
            let marked : Server :=
              { s with house := s.house.setItem id expired }
            have hstep : s.advance (.expiring now (id :: ids) expiredIds)
                (gone []) = some (marked,
                  .inl (.storing now id ids expiredIds (.updating expired))) := by
              unfold advance
              simp only [hitem, if_pos hexpired, marked, expired]
            have hnext : marked.advance
                (.storing now id ids expiredIds (.updating expired)) (gone []) =
                  some (marked, .inl (.expiring now ids expiredIds)) := rfl
            exact .of_goes [] hstep rfl (.of_goes [] hnext rfl (ih _ expiredIds))
          · have hstep : s.advance (.expiring now (id :: ids) expiredIds)
                (gone []) = some (s, .inl (.expiring now ids expiredIds)) := by
              unfold advance
              simp only [hitem, hexpired]
              rfl
            exact .of_goes [] hstep rfl (ih s expiredIds)

/-- Past its first step a search can stop, and every other call can stop
anywhere. -/
theorem canStop (s : Server) (hm : ∀ criteria, m ≠ .looking criteria) :
    CanStop s m := by
  cases m with
  | saving sellerId item price => exact .of_last [] rfl rfl
  | filing item listing =>
      refine .of_last [] rfl ?_
      change (s.fileListing .raised item listing).2.db = s.db
      simp only [fileListing]
      split <;> rfl
  | looking criteria => exact (hm criteria rfl).elim
  | matching criteria ids results => exact canStop_matching criteria ids s results
  | checking auctionId buyerId =>
      have hstep : s.advance (.checking auctionId buyerId) (gone []) =
          some (s, .inr (.purchased false)) := by
        unfold advance
        dsimp only
        split
        · rfl
        · split
          · rfl
          · split <;> rfl
      exact .of_last [] hstep rfl
  | crediting auctionId buyerId listing m =>
      obtain ⟨c, hgone⟩ := s.db.updateUserBalanceStep_gone m
      have hstep : s.advance (.crediting auctionId buyerId listing m) (gone []) =
          some (s, .inr (.purchased false)) := by
        unfold advance
        simp only [gone, hgone]
      exact .of_last [] hstep rfl
  | debiting auctionId buyerId listing m =>
      obtain ⟨c, hgone⟩ := s.db.updateUserBalanceStep_gone m
      have hstep : s.advance (.debiting auctionId buyerId listing m) (gone []) =
          some (s, .inr (.purchased false)) := by
        unfold advance
        simp only [gone, hgone]
      exact .of_last [] hstep rfl
  | selling sold m =>
      obtain ⟨result, hgone, hresult⟩ := s.db.updateAuctionItemStep_gone m
      have hstep : s.advance (.selling sold m) (gone []) =
          some (s, .inr (.purchased false)) := by
        unfold advance
        simp only [gone, hgone]
      exact .of_last [] hstep rfl
  | handingOver sold =>
      refine .of_last [] rfl ?_
      change (s.finishSale .raised sold).2.db = s.db
      simp only [finishSale]
      split <;> rfl
  | withdrawing auctionId sellerId =>
      have hstops : s.advance (.withdrawing auctionId sellerId) (gone []) =
            some (s, .inr (.cancelled (.ok false))) ∨
          ∃ (marked : Server) (cancelled : AuctionItem),
            s.advance (.withdrawing auctionId sellerId) (gone []) =
              some (marked, .inl (.cancelling cancelled (.updating cancelled))) ∧
            marked.db = s.db := by
        unfold advance
        dsimp only
        split
        · exact .inl rfl
        · split
          · exact .inl rfl
          · split
            · exact .inl rfl
            · exact .inr ⟨_, _, rfl, rfl⟩
      rcases hstops with hstep | ⟨marked, cancelled, hstep, hdb⟩
      · exact .of_last [] hstep rfl
      · have hnext : marked.advance (.cancelling cancelled (.updating cancelled))
            (gone []) = some (marked, .inr (.cancelled (.ok false))) := rfl
        exact .of_goes [] hstep hdb (.of_last [] hnext rfl)
  | cancelling cancelled m =>
      obtain ⟨result, hgone, hresult⟩ := s.db.updateAuctionItemStep_gone m
      have hstep : s.advance (.cancelling cancelled m) (gone []) =
          some (s, .inr (.cancelled result)) := by
        unfold advance
        simp only [gone, hgone]
      exact .of_last [] hstep rfl
  | removing cancelled =>
      refine .of_last [] rfl ?_
      change (s.finishCancel .raised cancelled).2.db = s.db
      simp only [finishCancel]
      split <;> rfl
  | sweeping =>
      have hstep : s.advance .sweeping (gone s.house.auctionItems.keys) =
          some (s, .inl (.expiring default s.house.auctionItems.keys [])) :=
        if_pos (List.isPerm_iff.mpr (List.Perm.refl _))
      exact .of_goes _ hstep rfl (canStop_expiring _ _ s [])
  | expiring now ids expiredIds => exact canStop_expiring now ids s expiredIds
  | storing now id ids expiredIds m =>
      obtain ⟨result, hgone, hresult⟩ := s.db.updateAuctionItemStep_gone m
      rcases result with ex | _ | _
      · have hstep : s.advance (.storing now id ids expiredIds m) (gone []) =
            some (s, .inr (.swept (.error ex))) := by
          unfold advance
          simp only [gone, hgone]
        exact .of_last [] hstep rfl
      · have hstep : s.advance (.storing now id ids expiredIds m) (gone []) =
            some (s, .inl (.expiring now ids expiredIds)) := by
          unfold advance
          simp only [gone, hgone]
        exact .of_goes [] hstep rfl (canStop_expiring now ids s expiredIds)
      · exact (hresult rfl).elim
  | clearing expiredIds => exact canStop_clearing expiredIds s

/-- Nothing goes back to the start of a search. -/
theorem not_goes_looking {criteria : SearchCriteria} :
    s.advance m e ≠ some (s', .inl (.looking criteria)) := by
  intro h
  cases m <;> simp only [advance] at h <;> (repeat' split at h) <;> simp_all

/-- Inside a call the search is at its start only before any step. -/
theorem eq_of_looking {a b : Server × CallProgress} {criteria : SearchCriteria}
    (h : ReflTransGen houseCalls.Goes a b) (hb : b.2 = .looking criteria) :
    a = b := by
  induction h with
  | refl => rfl
  | tail _ hlast _ =>
      obtain ⟨o, hstep⟩ := hlast
      rw [hb] at hstep
      exact (not_goes_looking hstep).elim

end Server
end AuctionServer
