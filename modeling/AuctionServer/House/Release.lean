import AuctionServer.House.Concurrency

/-!
# The mutex is released

Each step of a call leaves less of it to do, whatever the stores answer, and
after the first step of a call the next one is always defined.  So a thread in
the house gets out again, and no call keeps the others out for ever.
-/

namespace AuctionServer

open Prod.Lex

/-- How many steps `updateUserBalance` may go on for. -/
def BalanceProgress.left : BalanceProgress → ℕ
  | .finding _ => 1
  | .updating _ _ _ => 0

/-- How many steps `updateAuctionItem` may go on for. -/
def ItemWrite.left : ItemWrite → ℕ
  | .updating _ => 1
  | .deleting _ _ => 0

/-- What is left of a call: the stage it is in, and what is left of the stage.
A listing in the first loop of a sweep takes up to three steps. -/
def CallProgress.left : CallProgress → ℕ ×ₗ ℕ
  | .saving _ _ _ => toLex (1, 0)
  | .filing _ _ => toLex (0, 0)
  | .looking _ => toLex (1, 0)
  | .matching _ ids _ => toLex (0, ids.length)
  | .checking _ _ => toLex (4, 0)
  | .crediting _ _ _ m => toLex (3, m.left)
  | .debiting _ _ _ m => toLex (2, m.left)
  | .selling _ m => toLex (1, m.left)
  | .handingOver _ => toLex (0, 0)
  | .withdrawing _ _ => toLex (2, 0)
  | .cancelling _ m => toLex (1, m.left)
  | .removing _ => toLex (0, 0)
  | .sweeping => toLex (2, 0)
  | .expiring _ ids _ => toLex (1, 3 * ids.length)
  | .storing _ _ ids _ m => toLex (1, 3 * ids.length + 1 + m.left)
  | .clearing ids => toLex (0, ids.length)

namespace Database

variable {db db' : Database}

theorem left_lt_of_balance_goes {m m' : BalanceProgress} {e : BalanceOutcomes}
    (h : db.updateUserBalanceStep m e = (db', .inl m')) : m'.left < m.left := by
  cases m with
  | updating c current new => cases congrArg Prod.snd h
  | finding c =>
      rcases db.updateUserBalanceStep_finding_cases c e with
        ⟨hstep, -⟩ | ⟨current, new, hstep, -⟩
      · cases hstep.symm.trans h
      · cases hstep.symm.trans h
        exact Nat.zero_lt_one

theorem left_lt_of_item_goes {m m' : ItemWrite} {w : WriteOutcome}
    (h : db.updateAuctionItemStep m w = (db', .inl m')) : m'.left < m.left := by
  cases m with
  | updating item =>
      rcases db.updateAuctionItemStep_updating_cases item w with
        ⟨result, cleaned, hstep, -⟩ | ⟨modified, written, hstep, -⟩
      · cases hstep.symm.trans h
      · cases hstep.symm.trans h
        exact Nat.zero_lt_one
  | deleting item modified =>
      simp only [updateAuctionItemStep] at h
      split at h <;> cases congrArg Prod.snd h

end Database

namespace Server

variable [StdSort] {s s' : Server} {m m' : CallProgress} {e : Encounter}

omit [StdSort] in
theorem stage_lt {a b k n : ℕ} (h : a < b) :
    (toLex (a, k) : ℕ ×ₗ ℕ) < toLex (b, n) :=
  toLex_lt_toLex.mpr (.inl h)

omit [StdSort] in
theorem within_stage_lt {a k n : ℕ} (h : k < n) :
    (toLex (a, k) : ℕ ×ₗ ℕ) < toLex (a, n) :=
  toLex_lt_toLex.mpr (.inr ⟨rfl, h⟩)

/-- A step that goes on leaves less to do. -/
theorem left_lt_of_goes (h : s.advance m e = some (s', .inl m')) :
    m'.left < m.left := by
  cases m with
  | saving sellerId item price =>
      unfold advance at h
      dsimp only at h
      split at h
      · cases h
      · cases h
        exact stage_lt (by decide)
  | filing item listing => cases h
  | looking criteria =>
      unfold advance at h
      dsimp only at h
      split at h
      · cases h
      · obtain ⟨ids, -, heq⟩ := Option.map_eq_some_iff.mp h
        cases heq
        exact stage_lt (by decide)
  | matching criteria ids results =>
      cases ids with
      | nil => cases h
      | cons id ids =>
          unfold advance at h
          dsimp only at h
          split at h
          · cases h
          · cases h
            exact within_stage_lt (Nat.lt_succ_self ids.length)
  | checking auctionId buyerId =>
      unfold advance at h
      dsimp only at h
      split at h
      · cases h
      · split at h
        · cases h
        · split at h
          · cases h
          · split at h
            · cases h
            · cases h
            · split at h
              · cases h
              · cases h
                exact stage_lt (by decide)
  | crediting auctionId buyerId listing m =>
      unfold advance at h
      dsimp only at h
      split at h
      · next hstep =>
          cases h
          exact within_stage_lt (Database.left_lt_of_balance_goes hstep)
      · cases h
      · cases h
        exact stage_lt (by decide)
  | debiting auctionId buyerId listing m =>
      unfold advance at h
      dsimp only at h
      split at h
      · next hstep =>
          cases h
          exact within_stage_lt (Database.left_lt_of_balance_goes hstep)
      · cases h
      · cases h
        exact stage_lt (by decide)
  | selling sold m =>
      unfold advance at h
      dsimp only at h
      split at h
      · next hstep =>
          cases h
          exact within_stage_lt (Database.left_lt_of_item_goes hstep)
      · cases h
        exact stage_lt (by decide)
      · cases h
  | handingOver sold => cases h
  | withdrawing auctionId sellerId =>
      unfold advance at h
      dsimp only at h
      split at h
      · cases h
      · split at h
        · cases h
        · split at h
          · cases h
          · cases h
            exact stage_lt (by decide)
  | cancelling cancelled m =>
      unfold advance at h
      dsimp only at h
      split at h
      · next hstep =>
          cases h
          exact within_stage_lt (Database.left_lt_of_item_goes hstep)
      · cases h
        exact stage_lt (by decide)
      · cases h
  | removing cancelled => cases h
  | sweeping =>
      unfold advance at h
      dsimp only at h
      split at h
      · cases h
        exact stage_lt (by decide)
      · cases h
  | expiring now ids expiredIds =>
      cases ids with
      | nil =>
          cases h
          exact stage_lt (by decide)
      | cons id ids =>
          have hless : 3 * ids.length < 3 * (id :: ids).length := by
            rw [List.length_cons]
            omega
          unfold advance at h
          dsimp only at h
          split at h
          · cases h
            exact within_stage_lt hless
          · split at h
            · cases h
              refine within_stage_lt ?_
              simp only [ItemWrite.left, List.length_cons]
              omega
            · cases h
              exact within_stage_lt hless
  | storing now id ids expiredIds m =>
      have hless : 3 * ids.length < 3 * ids.length + 1 + m.left := by omega
      unfold advance at h
      dsimp only at h
      split at h
      · next hstep =>
          cases h
          refine within_stage_lt ?_
          exact Nat.add_lt_add_left (Database.left_lt_of_item_goes hstep) _
      · cases h
      · cases h
        exact within_stage_lt hless
      · cases h
        exact within_stage_lt hless
  | clearing expiredIds =>
      cases expiredIds with
      | nil => cases h
      | cons id ids =>
          unfold advance at h
          dsimp only at h
          split at h
          · cases h
            exact within_stage_lt (Nat.lt_succ_self ids.length)
          · split at h
            · cases h
            · cases h
              exact within_stage_lt (Nat.lt_succ_self ids.length)

/-! ## Getting out -/

/-- The next step is defined: a search about to look has its price bounds in
order, and a sweep about to begin is given the listings. -/
def Ready (s : Server) (e : Encounter) : CallProgress → Prop
  | .looking criteria => criteria.PricesOrdered
  | .sweeping => e.order.isPerm s.house.auctionItems.keys = true
  | _ => True

theorem advance_isSome (h : s.Ready e m) : (s.advance m e).isSome = true := by
  cases m with
  | looking criteria =>
      obtain ⟨ids, hids⟩ := candidates_some s.house h
      unfold advance
      simp only [hids]
      split <;> rfl
  | sweeping =>
      have hstep : s.advance .sweeping e =
          some (s, .inl (.expiring e.now e.order [])) := if_pos h
      rw [hstep]
      rfl
  | matching criteria ids results =>
      cases ids with
      | nil => rfl
      | cons id ids =>
          unfold advance
          dsimp only
          split <;> rfl
  | expiring now ids expiredIds =>
      cases ids with
      | nil => rfl
      | cons id ids =>
          unfold advance
          dsimp only
          (repeat' split) <;> rfl
  | clearing expiredIds =>
      cases expiredIds with
      | nil => rfl
      | cons id ids =>
          unfold advance
          dsimp only
          (repeat' split) <;> rfl
  | _ =>
      unfold advance
      dsimp only
      (repeat' split) <;> rfl

/-- Nothing goes back to the start of a sweep. -/
theorem not_goes_sweeping : s.advance m e ≠ some (s', .inl .sweeping) := by
  intro h
  cases m <;> simp only [advance] at h <;> (repeat' split at h) <;> simp_all

theorem ready_of_goes (h : s.advance m e = some (s', .inl m')) (e' : Encounter) :
    s'.Ready e' m' := by
  cases m' with
  | looking criteria => exact (not_goes_looking h).elim
  | sweeping => exact (not_goes_sweeping h).elim
  | _ => trivial

/-- A thread in the house gets out, and leaves the others waiting as they
were, whatever the stores answer it. -/
theorem mutex_released {threads : Guarded.Threads Server Operation CallProgress}
    {i : ℕ} {c : Operation} (hholder : threads.holder = some (i, c, m))
    (o : ℕ → Encounter) (hready : threads.shared.Ready (o 0) m) :
    ∃ n es t, houseCalls.machine.run threads
        ((List.range n).map fun k => .advance (o k)) = some (es, t) ∧
      t.holder = none ∧ t.waiting = threads.waiting ∧
      ∃ r, ∃ e ∈ es, e.output = .returned i c r :=
  @Guarded.exists_leaves _ _ _ _ _ _ _ houseCalls _ _ _ CallProgress.left
    (fun _ _ _ _ _ h => left_lt_of_goes h)
    (fun _ _ _ _ _ o' h => advance_isSome (ready_of_goes h o')) i c m threads
    hholder o (advance_isSome hready)

omit [StdSort] in
theorem mutex_released_sweep :
    ∃ threads : Guarded.Threads Server Operation CallProgress,
      threads.holder = some (1, .processExpiredItems, .sweeping) ∧
      threads.waiting 2 = some (.purchaseItem 1 8) ∧
      ∃ n es t, (@houseCalls StdSort.insertion).machine.run threads
          ((List.range n).map fun _ => .advance (answeredAt 1000)) =
            some (es, t) ∧
        t.holder = none ∧ t.waiting = threads.waiting ∧
        ∃ r, ∃ e ∈ es, e.output = .returned 1 .processExpiredItems r :=
  ⟨⟨⟨AuctionHouse.initial, market⟩, fun _ => some (.purchaseItem 1 8),
      some (1, .processExpiredItems, .sweeping)⟩, rfl, rfl,
    @mutex_released StdSort.insertion .sweeping _ 1 _ rfl (fun _ => answeredAt 1000)
      (show [].isPerm AuctionHouse.initial.auctionItems.keys = true by
        decide)⟩

/-- As long as threads in the house make steps, threads enter the house: no
call is made for ever. -/
theorem mutex_taken_again
    {state : ℕ → Guarded.Threads Server Operation CallProgress}
    {turn : ℕ → Guarded.Turn Operation Encounter String Startup}
    (hrun : ∀ n, ∃ out, houseCalls.machine.step (state n) (turn n) =
      some (out, state (n + 1)))
    (hsteps : ∀ n, ∃ k, n ≤ k ∧ ∃ o, turn k = .advance o) (n : ℕ) :
    ∃ k, n ≤ k ∧ ∃ i, turn k = .enter i :=
  @Guarded.enters_again _ _ _ _ _ _ _ houseCalls _ _ _ CallProgress.left
    (fun _ _ _ _ _ h => left_lt_of_goes h) state turn hrun hsteps n

/-! ## Rounds without end -/

/-- A thread asks for a listing that does not exist, enters the house, and is
told so. -/
def round : ℕ → Guarded.Turn Operation Encounter String Startup
  | 0 => .call 1 (.purchaseItem 1 8)
  | 1 => .enter 1
  | _ => .advance (answeredAt 1000)

/-- The states before these turns. -/
def atRound : ℕ → Guarded.Threads Server Operation CallProgress
  | 0 => Guarded.begin ⟨AuctionHouse.initial, market⟩
  | 1 =>
      { shared := ⟨AuctionHouse.initial, market⟩
        waiting := Function.update (fun _ => none) 1 (some (.purchaseItem 1 8))
        holder := none }
  | _ =>
      { shared := ⟨AuctionHouse.initial, market⟩
        waiting := fun _ => none
        holder := some (1, .purchaseItem 1 8, .checking 1 8) }

omit [StdSort] in
theorem round_goes (n : ℕ) :
    ∃ out, (@houseCalls StdSort.insertion).machine.step (atRound (n % 3))
      (round (n % 3)) = some (out, atRound ((n + 1) % 3)) := by
  have hrounds : n % 3 = 0 ∧ (n + 1) % 3 = 1 ∨ n % 3 = 1 ∧ (n + 1) % 3 = 2 ∨
      n % 3 = 2 ∧ (n + 1) % 3 = 0 := by
    omega
  rcases hrounds with ⟨hn, hnext⟩ | ⟨hn, hnext⟩ | ⟨hn, hnext⟩
  · rw [hn, hnext]
    exact ⟨.going, rfl⟩
  · rw [hn, hnext]
    refine ⟨.going, ?_⟩
    simp only [atRound, round, Guarded.machine, Function.update_self,
      Function.update_idem]
    rw [Function.update_eq_self_iff.mpr rfl]
    rfl
  · rw [hn, hnext]
    exact ⟨.returned 1 (.purchaseItem 1 8) (.purchased false), rfl⟩

omit [StdSort] in
theorem mutex_taken_again_rounds :
    ∃ k, 100 ≤ k ∧ ∃ i, round (k % 3) = .enter i := by
  refine @mutex_taken_again StdSort.insertion (fun n => atRound (n % 3))
    (fun n => round (n % 3)) round_goes ?_ 100
  intro n
  refine ⟨3 * n + 2, by omega, answeredAt 1000, ?_⟩
  rw [show (3 * n + 2) % 3 = 2 by omega]
  rfl

end Server
end AuctionServer
