import AuctionServer.Store.Amounts
import AuctionServer.Support.Threads

/-!
# Concurrent balance updates

`updateUserBalance` reads a balance with `find_one` and writes an absolute
value with `update_one`, and nothing makes the two one step.  Interleaved calls
keep the books exactly as long as every write finds the balance its call read,
or one that already equals what it writes.  No interleaving makes a balance
negative.
-/

namespace AuctionServer

/-- The arguments of a call of `updateUserBalance`. -/
structure BalanceCall where
  userId : UInt32
  amount : Int32
deriving DecidableEq

/-- Where a call of `updateUserBalance` is: before its `find_one`, or before
its `update_one` with the balance it read and the one it writes. -/
inductive BalanceProgress where
  | finding (c : BalanceCall)
  | updating (c : BalanceCall) (currentBalance newBalance : Int32)
deriving DecidableEq

namespace Database

/-- The update matches a user and changes the balance. -/
def modifiesBalance (db : Database) (userId : UInt32) (balance : Int32) : Bool :=
  Collection.modifiesOne UserDocument.id userId.toInt32
    (fun doc => { doc with balance := some balance }) db.users

/-- `updateUserBalance`, one store call at a time. -/
def updateUserBalanceStep (db : Database) :
    BalanceProgress → BalanceOutcomes →
      Database × (BalanceProgress ⊕ (BalanceCall × Bool))
  | .finding c, o =>
      match o.find with
      | .raised => (db, .inr (c, false))
      | .answered =>
          match db.findUser c.userId with
          | none => (db, .inr (c, false))
          | some doc =>
              match doc.balance with
              | none => (db, .inr (c, false))
              | some currentBalance =>
                  let newBalance := currentBalance + c.amount
                  if newBalance < 0 then (db, .inr (c, false))
                  else (db, .inl (.updating c currentBalance newBalance))
  | .updating c _ newBalance, o =>
      (o.update.store db (db.setBalance c.userId newBalance),
        .inr (c, o.update.reports (db.modifiesBalance c.userId newBalance)))

/-- Calls of `updateUserBalance` in two steps. -/
def balanceUpdates : Routine Database BalanceCall BalanceOutcomes
    BalanceProgress (BalanceCall × Bool) where
  start := .finding
  step := updateUserBalanceStep

variable {db : Database}

theorem modifiesBalance_eq {u : UInt32} {doc : UserDocument} {current b : Int32}
    (hdoc : db.findUser u = some doc) (hbalance : doc.balance = some current) :
    db.modifiesBalance u b = decide (b ≠ current) := by
  simp only [findUser] at hdoc
  obtain ⟨id, username, balance⟩ := doc
  obtain rfl : balance = some current := hbalance
  simp [modifiesBalance, Collection.modifiesOne, hdoc]

/-- Alone, the steps of a call make up `updateUserBalance`. -/
theorem balanceUpdates_alone (db : Database) (c : BalanceCall)
    (o : BalanceOutcomes) :
    balanceUpdates.alone db (.finding c) [o, o] =
      some ((c, (db.updateUserBalance o c.userId c.amount).1),
        (db.updateUserBalance o c.userId c.amount).2) := by
  cases hfind : o.find with
  | raised =>
      simp [balanceUpdates, Routine.alone, updateUserBalanceStep,
        updateUserBalance, hfind]
  | answered =>
      cases hdoc : db.findUser c.userId with
      | none =>
          simp [balanceUpdates, Routine.alone, updateUserBalanceStep,
            updateUserBalance, hfind, hdoc]
      | some doc =>
          cases hbalance : doc.balance with
          | none =>
              simp [balanceUpdates, Routine.alone, updateUserBalanceStep,
                updateUserBalance, hfind, hdoc, hbalance]
          | some balance =>
              by_cases hneg : balance + c.amount < 0
              · simp [balanceUpdates, Routine.alone, updateUserBalanceStep,
                  updateUserBalance, hfind, hdoc, hbalance, hneg]
              · simp [balanceUpdates, Routine.alone, updateUserBalanceStep,
                  updateUserBalance, hfind, hdoc, hbalance, hneg,
                  modifiesBalance_eq hdoc hbalance]

/-! ## The books -/

/-- A step in a run of concurrent balance updates. -/
abbrev BalanceEvent :=
  Machine.Event (Routine.Threads Database BalanceProgress)
    (Routine.Turn BalanceCall BalanceOutcomes)
    (Routine.Progress (BalanceCall × Bool))

/-- What a step adds to the books of a user: the amount of a call on that user
that returns true. -/
def credited (u : UInt32) (e : BalanceEvent) : ℤ :=
  match e.output with
  | .returned (c, true) => if c.userId = u then c.amount.toInt else 0
  | _ => 0

/-- An update that takes effect is reported, and it finds the balance the call
read; or it finds the balance it writes. -/
def FindsWhatItRead (db : Database) : BalanceProgress → BalanceOutcomes → Prop
  | .finding _, _ => True
  | .updating c currentBalance newBalance, o =>
      o.update.applied = true →
        ∀ doc, db.findUser c.userId = some doc →
          doc.balance = some newBalance ∨
            (doc.balance = some currentBalance ∧ o.update = .done)

/-- No stored balance is negative. -/
def NoDebt (db : Database) : Prop :=
  ∀ doc ∈ db.users, 0 ≤ worth doc

/-- What a call knows between its two steps. -/
def HasRead (db : Database) : BalanceProgress → Prop
  | .finding _ => True
  | .updating c currentBalance newBalance =>
      0 ≤ newBalance.toInt ∧
        newBalance.toInt = currentBalance.toInt + c.amount.toInt ∧
        ∃ doc balance, db.findUser c.userId = some doc ∧
          doc.balance = some balance

theorem NoDebt.balanceOf (h : db.NoDebt) (u : UInt32) : 0 ≤ db.balanceOf u := by
  rw [Database.balanceOf]
  cases hdoc : db.findUser u with
  | none => exact le_rfl
  | some doc => exact h doc (Collection.mem_of_findOne hdoc)

theorem NoDebt.setBalance (h : db.NoDebt) (u : UInt32) {b : Int32}
    (hb : 0 ≤ b.toInt) : (db.setBalance u b).NoDebt := by
  intro doc hdoc
  rcases Collection.mem_updateOne hdoc with hold | ⟨doc₀, -, rfl⟩
  · exact h doc hold
  · exact hb

theorem HasRead.setBalance {m : BalanceProgress} (h : db.HasRead m) (u : UInt32)
    (b : Int32) : (db.setBalance u b).HasRead m := by
  cases m with
  | finding c => trivial
  | updating c current new =>
      obtain ⟨hnew, hsum, doc, balance, hdoc, hbalance⟩ := h
      refine ⟨hnew, hsum, ?_⟩
      rw [findUser_setBalance]
      split
      · next huser =>
          rw [huser, hdoc, Option.map_some]
          exact ⟨{ doc with balance := some b }, b, rfl, rfl⟩
      · exact ⟨doc, balance, hdoc, hbalance⟩

/-- The `find_one` step: it changes nothing, and a call that goes on has read
the balance. -/
theorem updateUserBalanceStep_finding (h : db.NoDebt) (c : BalanceCall)
    (o : BalanceOutcomes) :
    (db.updateUserBalanceStep (.finding c) o).1 = db ∧
      ((db.updateUserBalanceStep (.finding c) o).2 = .inr (c, false) ∨
        ∃ current new, (db.updateUserBalanceStep (.finding c) o).2 =
            .inl (.updating c current new) ∧
          db.HasRead (.updating c current new)) := by
  cases hfind : o.find with
  | raised => simp [updateUserBalanceStep, hfind]
  | answered =>
      cases hdoc : db.findUser c.userId with
      | none => simp [updateUserBalanceStep, hfind, hdoc]
      | some doc =>
          cases hbalance : doc.balance with
          | none => simp [updateUserBalanceStep, hfind, hdoc, hbalance]
          | some balance =>
              by_cases hneg : balance + c.amount < 0
              · simp [updateUserBalanceStep, hfind, hdoc, hbalance, hneg]
              · have hnonneg : 0 ≤ balance.toInt := by
                  have hworth := h doc (Collection.mem_of_findOne hdoc)
                  simpa [worth, hbalance] using hworth
                have hsum := toInt_add_of_nonneg hnonneg hneg
                rw [neg_iff_toInt_neg, not_lt] at hneg
                refine ⟨?_, Or.inr ⟨balance, balance + c.amount, ?_, hneg, hsum,
                  doc, balance, hdoc, hbalance⟩⟩
                all_goals
                  rw [← not_lt, ← neg_iff_toInt_neg] at hneg
                  simp [updateUserBalanceStep, hfind, hdoc, hbalance, hneg]

/-- An update that takes no effect reports false. -/
theorem reports_of_not_applied {w : WriteOutcome} (h : w.applied = false)
    (modified : Bool) : w.reports modified = false := by
  cases w with
  | done => cases h
  | refused applied => rfl
  | raised applied => rfl

/-- The `update_one` step changes the books by what it returns exactly when it
finds what the call read. -/
theorem updateUserBalanceStep_updating {c : BalanceCall} {current new : Int32}
    (h : db.HasRead (.updating c current new)) (o : BalanceOutcomes) :
    (∀ u, (db.updateUserBalanceStep (.updating c current new) o).1.balanceOf u =
        db.balanceOf u +
          if o.update.reports (db.modifiesBalance c.userId new) = true ∧
              c.userId = u then c.amount.toInt else 0) ↔
      db.FindsWhatItRead (.updating c current new) o := by
  obtain ⟨-, hsum, doc, balance, hdoc, hbalance⟩ := h
  have hworth : db.balanceOf c.userId = balance.toInt := by
    simp [balanceOf, hdoc, worth, hbalance]
  cases happlied : o.update.applied with
  | false =>
      simp [updateUserBalanceStep, FindsWhatItRead, WriteOutcome.store, happlied,
        reports_of_not_applied happlied]
  | true =>
      simp only [updateUserBalanceStep, FindsWhatItRead, WriteOutcome.store,
        happlied, if_true, true_imp_iff, hdoc, Option.some.injEq,
        forall_eq', hbalance, modifiesBalance_eq hdoc hbalance]
      constructor
      · intro hbooks
        have huser := hbooks c.userId
        rw [balanceOf_setBalance hdoc, if_pos rfl, hworth] at huser
        by_cases hsame : balance = new
        · exact Or.inl hsame
        · right
          have hne : new.toInt ≠ balance.toInt := fun heq =>
            hsame (Int32.toInt_inj.mp heq.symm)
          cases hupdate : o.update with
          | done =>
              simp only [hupdate, WriteOutcome.reports, decide_eq_true_eq, ne_eq,
                eq_comm (a := new), hsame, not_false_eq_true, and_self,
                if_true] at huser
              exact ⟨Int32.toInt_inj.mp (by omega), rfl⟩
          | refused applied =>
              simp [hupdate, WriteOutcome.reports] at huser
              exact (hne huser).elim
          | raised applied =>
              simp [hupdate, WriteOutcome.reports] at huser
              exact (hne huser).elim
      · rintro hfinds u
        rw [balanceOf_setBalance hdoc]
        by_cases huser : c.userId = u
        · subst huser
          rw [if_pos rfl, hworth]
          rcases hfinds with rfl | ⟨rfl, hdone⟩
          · cases o.update <;> simp [WriteOutcome.reports]
          · by_cases hsame : new = balance
            · subst hsame
              simp [hdone, WriteOutcome.reports]
            · simp [hdone, WriteOutcome.reports, hsame, hsum]
        · simp [huser]

/-! ## Interleaved calls -/

/-- A step writes nothing, or some nonnegative balance. -/
theorem updateUserBalanceStep_fst (m : BalanceProgress) (o : BalanceOutcomes)
    (hdebt : db.NoDebt) (h : db.HasRead m) :
    (db.updateUserBalanceStep m o).1 = db ∨
      ∃ u b, 0 ≤ b.toInt ∧ (db.updateUserBalanceStep m o).1 = db.setBalance u b := by
  cases m with
  | finding c => exact Or.inl (updateUserBalanceStep_finding hdebt c o).1
  | updating c current new =>
      rcases WriteOutcome.store_cases o.update db
        (db.setBalance c.userId new) with heq | heq
      · exact Or.inl heq
      · exact Or.inr ⟨c.userId, new, h.1, heq⟩

/-- Whatever the interleaving, no balance becomes negative, and a call that
writes has read. -/
theorem noDebt_preserves :
    balanceUpdates.machine.Preserves
      (Routine.Allowed (fun _ => True) fun _ _ _ => True)
      (Routine.Holds NoDebt HasRead) := by
  apply Routine.holds_preserves
  · intro db c _ _
    trivial
  · intro db m o hdebt hread _
    change (db.updateUserBalanceStep m o).1.NoDebt
    rcases updateUserBalanceStep_fst m o hdebt hread with heq | ⟨u, b, hb, heq⟩
    · rw [heq]
      exact hdebt
    · rw [heq]
      exact hdebt.setBalance u hb
  · intro db m o m' hdebt _ _ hnext
    change (db.updateUserBalanceStep m o).2 = .inl m' at hnext
    change (db.updateUserBalanceStep m o).1.HasRead m'
    cases m with
    | finding c =>
        obtain ⟨hsame, hstop | ⟨current, new, hgoes, hread⟩⟩ :=
          updateUserBalanceStep_finding hdebt c o
        · rw [hstop] at hnext
          cases hnext
        · rw [hgoes] at hnext
          obtain rfl := Sum.inl.inj hnext
          rw [hsame]
          exact hread
    | updating c current new => cases hnext
  · intro db m o n hdebt hread _ hother
    change (db.updateUserBalanceStep m o).1.HasRead n
    rcases updateUserBalanceStep_fst m o hdebt hread with heq | ⟨u, b, -, heq⟩
    · rw [heq]
      exact hother
    · rw [heq]
      exact hother.setBalance u b

/-- The condition on a step of the interleaving. -/
def Keeps : BalanceEvent → Prop :=
  Routine.Allowed (fun _ => True) FindsWhatItRead

/-- A step keeps the books of all users exactly when it is allowed. -/
theorem step_keeps_books_iff {e : BalanceEvent}
    (hfires : balanceUpdates.machine.Fires e)
    (h : Routine.Holds NoDebt HasRead e.before) :
    (∀ u, e.after.shared.balanceOf u =
        e.before.shared.balanceOf u + credited u e) ↔ Keeps e := by
  obtain ⟨s, turn, p, t⟩ := e
  cases turn with
  | call i c =>
      obtain ⟨-, rfl, rfl⟩ := Routine.fires_call.mp hfires
      simp [credited, Keeps, Routine.Allowed]
  | advance i o =>
      obtain ⟨m, hm, hafter, hcases⟩ := Routine.fires_advance.mp hfires
      rw [Keeps, Routine.allowed_advance hm]
      have hread := h.locals i m hm
      change t.shared = (s.shared.updateUserBalanceStep m o).1 at hafter
      cases m with
      | finding c =>
          obtain ⟨hsame, -⟩ := updateUserBalanceStep_finding h.shared c o
          have hnothing : ∀ u, credited u ⟨s, .advance i o, p, t⟩ = 0 := by
            intro u
            rcases hcases with ⟨m', -, rfl, -⟩ | ⟨r, hr, rfl, -⟩
            · rfl
            · obtain ⟨-, hstop | ⟨current, new, hgoes, -⟩⟩ :=
                updateUserBalanceStep_finding h.shared c o
              · obtain rfl := Sum.inr.inj (hstop.symm.trans hr)
                rfl
              · cases hgoes.symm.trans hr
          simp [hafter, hsame, hnothing, FindsWhatItRead]
      | updating c current new =>
          rw [← updateUserBalanceStep_updating hread o]
          rcases hcases with ⟨m', hgoes, -⟩ | ⟨r, hr, rfl, -⟩
          · cases hgoes
          · obtain rfl := Sum.inr.inj hr
            simp only [hafter]
            apply forall_congr'
            intro u
            cases hreports : o.update.reports
              (s.shared.modifiesBalance c.userId new)
            · simp [credited]
            · simp [credited]

/-- In every state of a run of interleaved calls the balance of each user is
the initial one and the amounts of the calls that returned true, and not
negative, exactly when every effective write finds what its call read. -/
theorem balances_kept_iff {db : Database} (hdebt : db.NoDebt)
    {turns : List (Routine.Turn BalanceCall BalanceOutcomes)}
    {es : List BalanceEvent} {s : Routine.Threads Database BalanceProgress}
    (hrun : balanceUpdates.machine.run (Routine.begin db) turns = some (es, s)) :
    (∀ past e later, es = past ++ e :: later → ∀ u,
        e.after.shared.balanceOf u =
            db.balanceOf u + ((past ++ [e]).map (credited u)).sum ∧
          0 ≤ e.after.shared.balanceOf u) ↔
      ∀ e ∈ es, Keeps e := by
  obtain ⟨-, hholds⟩ := Machine.run_invariant noDebt_preserves hrun
    (fun e _ => Routine.allowed_all (fun _ => trivial) (fun _ _ _ => trivial) e)
    (Routine.holds_begin hdebt)
  have hfires := Machine.run_fires hrun
  have hbooks := fun u => @Machine.run_sum_iff _ _ _ balanceUpdates.machine
    (fun s => s.shared.balanceOf u) (credited u) _ _ _ _ hrun
  constructor
  · intro hall e he
    rw [← step_keeps_books_iff (hfires e he) (hholds e he).1]
    intro u
    exact (hbooks u).mp (fun past e later heq => (hall past e later heq u).1) e he
  · intro hkeeps past e later heq u
    refine ⟨?_, ?_⟩
    · refine (hbooks u).mpr ?_ past e later heq
      intro e' he'
      exact (step_keeps_books_iff (hfires e' he') (hholds e' he').1).mpr
        (hkeeps e' he') u
    · exact (hholds e (by simp [heq])).2.shared.balanceOf u

/-! ## Two calls at once -/

/-- A user with a hundred. -/
def oneUser : Database where
  auctions := []
  users := [⟨7, literal "ann", some 100⟩]
  redisAvailable := false
  redis := ∅

/-- Both store calls are answered. -/
def answeredUpdate : BalanceOutcomes :=
  ⟨.answered, .done⟩

theorem oneUser_noDebt : oneUser.NoDebt := by
  intro doc hdoc
  obtain rfl : doc = ⟨7, literal "ann", some 100⟩ := by
    simpa [oneUser] using hdoc
  decide

/-- Two calls one after the other. -/
theorem balances_kept_in_turn :
    ∃ es s, balanceUpdates.machine.run (Routine.begin oneUser)
        [.call 0 ⟨7, 10⟩, .advance 0 answeredUpdate, .advance 0 answeredUpdate,
          .call 1 ⟨7, 20⟩, .advance 1 answeredUpdate,
          .advance 1 answeredUpdate] = some (es, s) ∧
      ((∀ past e later, es = past ++ e :: later → ∀ u,
          e.after.shared.balanceOf u =
              oneUser.balanceOf u + ((past ++ [e]).map (credited u)).sum ∧
            0 ≤ e.after.shared.balanceOf u) ↔
        ∀ e ∈ es, Keeps e) := by
  obtain ⟨⟨es, s⟩, hrun, -⟩ := (Option.any_eq_true (fun _ => true) _).mp
    (show (balanceUpdates.machine.run (Routine.begin oneUser)
      [.call 0 ⟨7, 10⟩, .advance 0 answeredUpdate, .advance 0 answeredUpdate,
        .call 1 ⟨7, 20⟩, .advance 1 answeredUpdate,
        .advance 1 answeredUpdate]).any (fun _ => true) = true by decide)
  exact ⟨es, s, hrun, balances_kept_iff oneUser_noDebt hrun⟩

/-- Both calls read a hundred, and the second write hides the first. -/
theorem interleaved_update_is_lost :
    ¬ ∀ (db : Database) (turns : List (Routine.Turn BalanceCall BalanceOutcomes))
        (es : List BalanceEvent) (s : Routine.Threads Database BalanceProgress),
        db.NoDebt →
        balanceUpdates.machine.run (Routine.begin db) turns = some (es, s) →
        s.Idle → ∀ u, s.shared.balanceOf u =
            db.balanceOf u + (es.map (credited u)).sum ∧
          0 ≤ s.shared.balanceOf u := by
  intro h
  obtain ⟨⟨es, s⟩, hrun, hlost⟩ := (Option.any_eq_true _ _).mp
    (show (balanceUpdates.machine.run (Routine.begin oneUser)
      [.call 0 ⟨7, 10⟩, .call 1 ⟨7, 20⟩, .advance 0 answeredUpdate,
        .advance 1 answeredUpdate, .advance 0 answeredUpdate,
        .advance 1 answeredUpdate]).any
      (fun r => decide (r.2.locals 0 = none ∧ r.2.locals 1 = none ∧
        r.2.shared.balanceOf 7 ≠ oneUser.balanceOf 7 +
          (r.1.map (credited 7)).sum)) = true by decide)
  obtain ⟨hzero, hone, hlost⟩ := of_decide_eq_true hlost
  refine hlost (h oneUser _ es s oneUser_noDebt hrun ?_ 7).1
  intro i
  by_cases hi : i = 0 ∨ i = 1
  · rcases hi with rfl | rfl
    · exact hzero
    · exact hone
  · push Not at hi
    refine Routine.locals_eq_none hrun rfl ?_
    simp [hi]

end Database
end AuctionServer
