import AuctionServer.House.Users
import AuctionServer.Store.Amounts

/-!
# Arithmetic on balances

The integers that `updateUserBalance` and `purchaseItem` compute when they
convert a price, negate it and add it to a balance.  Balances stay nonnegative
in every run, a price that gets as far as the seller is covered by the buyer's
balance, and so the debit and all conversions stay within `int32`.  What can
leave the type is the sum that credits the seller.
-/

namespace AuctionServer

/-- The integer is an `int32`. -/
def InInt32 (v : ℤ) : Prop :=
  -(2 ^ 31) ≤ v ∧ v < 2 ^ 31

instance (v : ℤ) : Decidable (InInt32 v) :=
  inferInstanceAs (Decidable (_ ∧ _))

namespace Database

/-- `updateUserBalance`, with the integers its arithmetic stands for. -/
def updateUserBalanceTraced (db : Database) (o : BalanceOutcomes)
    (userId : UInt32) (amount : Int32) : List ℤ × Bool × Database :=
  match o.find with
  | .raised => ([], false, db)
  | .answered =>
      match db.findUser userId with
      | none => ([], false, db)
      | some doc =>
          match doc.balance with
          | none => ([], false, db)
          | some currentBalance =>
              let sum := currentBalance.toInt + amount.toInt
              let newBalance := currentBalance + amount
              if newBalance < 0 then ([sum, -amount.toInt], false, db)
              else
                ([sum],
                  o.update.reports (decide (newBalance ≠ currentBalance)),
                  o.update.store db (db.setBalance userId newBalance))

variable {db : Database} {o : BalanceOutcomes} {u : UInt32} {amount : Int32}

theorem updateUserBalanceTraced_snd :
    (db.updateUserBalanceTraced o u amount).2 =
      db.updateUserBalance o u amount := by
  cases hfind : o.find with
  | raised => simp [updateUserBalanceTraced, updateUserBalance, hfind]
  | answered =>
      cases hdoc : db.findUser u with
      | none => simp [updateUserBalanceTraced, updateUserBalance, hfind, hdoc]
      | some doc =>
          cases hbalance : doc.balance with
          | none =>
              simp [updateUserBalanceTraced, updateUserBalance, hfind, hdoc,
                hbalance]
          | some balance =>
              by_cases hneg : balance + amount < 0
              · simp [updateUserBalanceTraced, updateUserBalance, hfind, hdoc,
                  hbalance, hneg]
              · simp [updateUserBalanceTraced, updateUserBalance, hfind, hdoc,
                  hbalance, hneg]

/-- Over nonnegative balances only a sum that is too great is out of range. -/
theorem updateUserBalanceTraced_inInt32 (h : db.NonNegative)
    (hamount : -(2 ^ 31) < amount.toInt) :
    (∀ v ∈ (db.updateUserBalanceTraced o u amount).1, InInt32 v) ↔
      (o.find = .answered → ∀ doc, db.findUser u = some doc →
        worth doc + amount.toInt < 2 ^ 31) := by
  cases hfind : o.find with
  | raised => simp [updateUserBalanceTraced, hfind]
  | answered =>
      cases hdoc : db.findUser u with
      | none => simp [updateUserBalanceTraced, hfind, hdoc]
      | some doc =>
          obtain ⟨balance, hbalance, hnonneg⟩ := h.balance hdoc
          have hworth : worth doc = balance.toInt := by simp [worth, hbalance]
          have hlt := amount.toInt_lt
          have hsum : InInt32 (balance.toInt + amount.toInt) ↔
              balance.toInt + amount.toInt < 2 ^ 31 := by
            rw [InInt32]
            omega
          have hnegated : InInt32 (-amount.toInt) := by
            rw [InInt32]
            omega
          by_cases hneg : balance + amount < 0
          · simp [updateUserBalanceTraced, hfind, hdoc, hbalance, hneg, hsum,
              hnegated, hworth]
          · simp [updateUserBalanceTraced, hfind, hdoc, hbalance, hneg, hsum,
              hworth]

end Database

namespace Server

/-- `settle`, with the integers computed on the way: the price is converted
for the credit, and converted and negated for the debit. -/
def settleTraced (db : Database) (o : PurchaseOutcomes) (listing : AuctionItem)
    (buyerId : UInt32) : List ℤ × Bool × Database :=
  match db.getUserInfo o.buyer buyerId with
  | .error _ => ([], false, db)
  | .ok none => ([], false, db)
  | .ok (some buyer) =>
      if buyer.balance < listing.price then ([], false, db)
      else
        match db.updateUserBalanceTraced o.credit listing.sellerId
            listing.price.toInt32 with
        | (values, false, db) =>
            ((listing.price.toNat : ℤ) :: values, false, db)
        | (values, true, db) =>
            match db.updateUserBalanceTraced o.debit buyerId
                (-listing.price.toInt32) with
            | (values', result) =>
                ((listing.price.toNat : ℤ) :: values ++
                  (listing.price.toNat : ℤ) ::
                    (-listing.price.toInt32.toInt) :: values', result)

/-- The integers computed by a call; only a purchase changes balances. -/
def arithmetic (s : Server) : Call → List ℤ
  | .purchaseItem o _ auctionId buyerId =>
      match s.house.auctionItems[auctionId]? with
      | none => []
      | some listing =>
          if listing.status ≠ .active then []
          else if listing.sellerId = buyerId then []
          else (settleTraced s.db o listing buyerId).1
  | _ => []

/-- When a purchase gets as far as crediting the seller, the seller's balance
has room for the price. -/
def CreditFits (s : Server) : Call → Prop
  | .purchaseItem o _ auctionId buyerId =>
      ∀ listing, s.OnOffer auctionId buyerId listing →
        s.db.CanPay o.buyer buyerId listing.price →
          o.credit.find = .answered →
            ∀ doc, s.db.findUser listing.sellerId = some doc →
              Database.worth doc + listing.price.toNat < 2 ^ 31
  | _ => True

variable {db : Database} {o : PurchaseOutcomes} {listing : AuctionItem}
  {buyerId : UInt32}

theorem settleTraced_snd :
    (settleTraced db o listing buyerId).2 = settle db o listing buyerId := by
  cases hinfo : db.getUserInfo o.buyer buyerId with
  | error e => simp [settleTraced, settle, hinfo]
  | ok info =>
      cases info with
      | none => simp [settleTraced, settle, hinfo]
      | some info =>
          by_cases hpay : info.balance < listing.price
          · simp [settleTraced, settle, hinfo, hpay]
          · rcases hcredit : db.updateUserBalanceTraced o.credit
              listing.sellerId listing.price.toInt32 with ⟨values, done, paid⟩
            have hcredit' : db.updateUserBalance o.credit listing.sellerId
                listing.price.toInt32 = (done, paid) := by
              rw [← Database.updateUserBalanceTraced_snd, hcredit]
            cases done with
            | false =>
                simp [settleTraced, settle, hinfo, hpay, hcredit, hcredit']
            | true =>
                simp [settleTraced, settle, hinfo, hpay, hcredit, hcredit',
                  Database.updateUserBalanceTraced_snd]

/-- A buyer who can pay has an `int32` balance of at least the price. -/
theorem canPay_balance {find : ReadOutcome} {price : UInt32}
    (h : db.NonNegative) (hpay : db.CanPay find buyerId price) :
    ∃ balance : Int32, price.toInt32.toInt = price.toNat ∧
      (price.toNat : ℤ) ≤ balance.toInt := by
  obtain ⟨info, hinfo, hcovers⟩ := hpay
  cases find with
  | raised => simp [Database.getUserInfo] at hinfo
  | answered =>
      cases hdoc : db.findUser buyerId with
      | none => simp [Database.getUserInfo, hdoc] at hinfo
      | some doc =>
          obtain ⟨balance, hbalance, hnonneg⟩ := h.balance hdoc
          simp only [Database.getUserInfo, hdoc, hbalance, Except.ok.injEq,
            Option.some.injEq] at hinfo
          rw [← hinfo] at hcovers
          exact ⟨balance, price_of_covered hnonneg hcovers⟩

/-- In a purchase only the credit of the seller can leave the range. -/
theorem settleTraced_inInt32 (h : db.NonNegative) :
    (∀ v ∈ (settleTraced db o listing buyerId).1, InInt32 v) ↔
      (db.CanPay o.buyer buyerId listing.price → o.credit.find = .answered →
        ∀ doc, db.findUser listing.sellerId = some doc →
          Database.worth doc + listing.price.toNat < 2 ^ 31) := by
  by_cases hpay : db.CanPay o.buyer buyerId listing.price
  · obtain ⟨balance, hprice, hcovered⟩ := canPay_balance h hpay
    obtain ⟨info, hinfo, hcovers⟩ := hpay
    have hbound := balance.toInt_lt
    have hpriceRange : InInt32 (listing.price.toNat : ℤ) := by
      rw [InInt32]
      omega
    have hnegated : (-listing.price.toInt32).toInt = -(listing.price.toNat : ℤ) := by
      rw [Int32.toInt_neg, hprice, Int.bmod_def]
      omega
    have hcredit : (∀ v ∈ (db.updateUserBalanceTraced o.credit listing.sellerId
        listing.price.toInt32).1, InInt32 v) ↔ _ :=
      Database.updateUserBalanceTraced_inInt32 h (by rw [hprice]; omega)
    rw [hprice] at hcredit
    have hpaid := h.updateUserBalance o.credit listing.sellerId
      listing.price.toInt32
    rw [← Database.updateUserBalanceTraced_snd] at hpaid
    rcases htraced : db.updateUserBalanceTraced o.credit listing.sellerId
      listing.price.toInt32 with ⟨values, done, paid⟩
    rw [htraced] at hcredit hpaid
    simp only [hinfo, if_neg hcovers, htraced, settleTraced]
    cases done with
    | false =>
        simp only [List.forall_mem_cons, hpriceRange, true_and, hcredit]
        exact ⟨fun hfits _ => hfits, fun hfits => hfits ⟨info, hinfo, hcovers⟩⟩
    | true =>
        -- The debit subtracts from a balance that covers the price.
        have hdebit : ∀ v ∈ (paid.updateUserBalanceTraced o.debit buyerId
            (-listing.price.toInt32)).1, InInt32 v := by
          rw [Database.updateUserBalanceTraced_inInt32 hpaid
            (by rw [hnegated]; omega), hnegated]
          intro _ doc hdoc
          obtain ⟨b, hb, -⟩ := hpaid.balance hdoc
          have hlt := b.toInt_lt
          simp only [Database.worth, hb, Option.elim_some]
          omega
        have hnegation : InInt32 (-listing.price.toInt32.toInt) := by
          rw [hprice, InInt32]
          omega
        simp only [List.cons_append, List.forall_mem_cons,
          List.forall_mem_append, hpriceRange, hnegation, true_and, hcredit]
        constructor
        · rintro ⟨hfits, -⟩ _
          exact hfits
        · intro hfits
          exact ⟨hfits ⟨info, hinfo, hcovers⟩, hdebit⟩
  · have hnothing : (settleTraced db o listing buyerId).1 = [] := by
      cases hinfo : db.getUserInfo o.buyer buyerId with
      | error e => simp [settleTraced, hinfo]
      | ok info =>
          cases info with
          | none => simp [settleTraced, hinfo]
          | some info =>
              have hless : info.balance < listing.price := by
                by_contra hcovers
                exact hpay ⟨info, hinfo, hcovers⟩
              simp [settleTraced, hinfo, hless]
    simp [hnothing, hpay]

theorem arithmetic_inInt32 {s : Server} (h : s.db.NonNegative) (call : Call) :
    (∀ v ∈ s.arithmetic call, InInt32 v) ↔ s.CreditFits call := by
  cases call with
  | purchaseItem o now auctionId buyerId =>
      simp only [arithmetic, CreditFits]
      cases hitem : s.house.auctionItems[auctionId]? with
      | none => simp [OnOffer, hitem]
      | some listing =>
          by_cases hoffer : s.OnOffer auctionId buyerId listing
          · simp only [hoffer.2.1, hoffer.2.2, ne_eq, not_true_eq_false,
              if_false, settleTraced_inInt32 h]
            constructor
            · intro hfits listing' hoffer'
              obtain rfl : listing = listing' :=
                Option.some.inj (hitem.symm.trans hoffer'.1)
              exact hfits
            · intro hfits
              exact hfits listing hoffer
          · have hnone : ∀ listing', ¬ s.OnOffer auctionId buyerId listing' := by
              intro listing' hoffer'
              obtain rfl : listing = listing' :=
                Option.some.inj (hitem.symm.trans hoffer'.1)
              exact hoffer hoffer'
            have hno : ¬ (listing.status = .active ∧
                listing.sellerId ≠ buyerId) := fun hboth =>
              hoffer ⟨hitem, hboth.1, hboth.2⟩
            by_cases hactive : listing.status = .active
            · have hown : listing.sellerId = buyerId := by
                by_contra hother
                exact hno ⟨hactive, hother⟩
              simp [hactive, hown, hnone]
            · simp [hactive, hnone]
  | registerItem o now sellerId item price => simp [arithmetic, CreditFits]
  | searchItems o criteria => simp [arithmetic, CreditFits]
  | cancelListing o auctionId sellerId => simp [arithmetic, CreditFits]
  | processExpiredItems o now order => simp [arithmetic, CreditFits]
  | restart order failsAfter sellers => simp [arithmetic, CreditFits]
  | expireKey key => simp [arithmetic, CreditFits]

/-! ## Runs -/

theorem nonNegative_settle (h : db.NonNegative) :
    (settle db o listing buyerId).2.NonNegative := by
  cases hinfo : db.getUserInfo o.buyer buyerId with
  | error e => simpa [settle, hinfo] using h
  | ok info =>
      cases info with
      | none => simpa [settle, hinfo] using h
      | some info =>
          by_cases hpay : info.balance < listing.price
          · simpa [settle, hinfo, hpay] using h
          · have hpaid := h.updateUserBalance o.credit listing.sellerId
              listing.price.toInt32
            rcases hcredit : db.updateUserBalance o.credit listing.sellerId
              listing.price.toInt32 with ⟨done, paid⟩
            rw [hcredit] at hpaid
            cases done with
            | false => simpa [settle, hinfo, hpay, hcredit] using hpaid
            | true =>
                simpa [settle, hinfo, hpay, hcredit] using
                  hpaid.updateUserBalance o.debit buyerId
                    (-listing.price.toInt32)

/-- No call, however its store calls end, leaves a negative balance. -/
theorem nonNegative_preserves [StdSort] :
    machine.Preserves (fun _ => True)
      (fun s => s.WellFiled ∧ s.db.NonNegative) := by
  rintro e hfires - ⟨hwell, h⟩
  refine ⟨wellFiled_preserves e hfires trivial hwell, ?_⟩
  by_cases hpurchase : ∃ o now auctionId buyerId,
      e.input = .purchaseItem o now auctionId buyerId
  · obtain ⟨s, call, reply, s'⟩ := e
    obtain ⟨o, now, auctionId, buyerId, rfl⟩ := hpurchase
    obtain ⟨-, rfl⟩ := fires_purchaseItem.mp hfires
    by_cases hoffer : ∃ listing, s.OnOffer auctionId buyerId listing
    · obtain ⟨listing, hoffer⟩ := hoffer
      have hpaid : (settle s.db o listing buyerId).2.NonNegative :=
        nonNegative_settle h
      simp only [purchaseItem_of_onOffer o now hoffer]
      split
      · rw [(handOver_eq _ o _ now auctionId listing buyerId).1]
        exact hpaid.of_users (afterClose_users _ o.item o.seller auctionId _)
      · exact hpaid
    · simp only [purchaseItem_of_not_onOffer o now fun listing hl =>
        hoffer ⟨listing, hl⟩]
      exact h
  · refine h.of_users (step_users hfires hwell ?_)
    intro o now auctionId buyerId heq
    exact hpurchase ⟨o, now, auctionId, buyerId, heq⟩

/-- Over nonnegative balances, all arithmetic of a run is exact exactly when
no seller is credited beyond the greatest balance. -/
theorem balance_arithmetic_iff [StdSort] {db : Database}
    {order : List AuctionDocument} {failsAfter : Option ℕ}
    {sellers : ℕ → ReadOutcome} {calls : List Call} {es : List ServerEvent}
    {s : Server} (hnonneg : db.NonNegative)
    (hserve : serve db order failsAfter sellers calls = some (es, s)) :
    (∀ e ∈ es, ∀ v ∈ e.before.arithmetic e.input, InInt32 v) ↔
      ∀ e ∈ es, e.before.CreditFits e.input := by
  obtain ⟨s₀, hstart, hrun⟩ := serve_eq_some.mp hserve
  have hdb : s₀.db = db := (restart_loaded False.elim hstart).2.1
  have hfirst : s₀.WellFiled ∧ s₀.db.NonNegative :=
    ⟨hstart.wellFiled, hdb ▸ hnonneg⟩
  have hbefore := (Machine.run_invariant nonNegative_preserves hrun
    (fun _ _ => trivial) hfirst).2
  exact forall₂_congr fun e he => arithmetic_inInt32 (hbefore e he).1.2 e.input

/-- A sale for sixty to a buyer who has a hundred. -/
theorem balance_arithmetic_market :
    ∃ es s, @serve StdSort.insertion market [] none (fun _ => .answered)
        [offer "iron sword", purchase 1] = some (es, s) ∧
      ((∀ e ∈ es, ∀ v ∈ e.before.arithmetic e.input, InInt32 v) ↔
        ∀ e ∈ es, e.before.CreditFits e.input) := by
  obtain ⟨es, s, hserve, -⟩ :=
    @exists_serve StdSort.insertion market [] none (fun _ => .answered)
      [offer "iron sword", purchase 1] (fun _ _ => true) (by decide)
  refine ⟨es, s, hserve, @balance_arithmetic_iff StdSort.insertion market [] none
    _ _ es s ?_ hserve⟩
  simp [Database.NonNegative, market]

/-- The market with a seller who already has the greatest balance. -/
def richMarket : Database :=
  { market with
    users := [⟨7, literal "ann", some 2147483647⟩, ⟨8, literal "bob", some 100⟩] }

theorem richMarket_nonNegative : richMarket.NonNegative := by
  simp [Database.NonNegative, richMarket]

/-- The sale adds sixty to the greatest `int32`. -/
theorem credit_leaves_int32 :
    ¬ ∀ (db : Database) (order : List AuctionDocument) (failsAfter : Option ℕ)
        (sellers : ℕ → ReadOutcome) (calls : List Call)
        (es : List ServerEvent) (s : Server), db.NonNegative →
        @serve StdSort.insertion db order failsAfter sellers calls =
          some (es, s) →
        ∀ e ∈ es, ∀ v ∈ e.before.arithmetic e.input, InInt32 v := by
  intro h
  obtain ⟨es, s, hserve, hes⟩ :=
    @exists_serve StdSort.insertion richMarket [] none (fun _ => .answered)
      [offer "iron sword", purchase 1]
      (fun es _ => es.any fun e =>
        (e.before.arithmetic e.input).any fun v => !decide (InInt32 v))
      (by decide)
  obtain ⟨e, he, hany⟩ := List.any_eq_true.mp hes
  obtain ⟨v, hv, hout⟩ := List.any_eq_true.mp hany
  have hin := h _ _ _ _ _ es s richMarket_nonNegative hserve e he v hv
  simp [hin] at hout

end Server
end AuctionServer
