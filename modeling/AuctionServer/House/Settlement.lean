import AuctionServer.House.Listings
import AuctionServer.Store.Effects

/-!
# Settling a purchase

What `settle` does to the two balances.  The seller is credited first, so
there are three ways to fail: before the credit, between the credit and the
debit, and at the debit itself.
-/

namespace AuctionServer
namespace Database

/-- Nobody changes name, and balances that can be read stay readable. -/
def SameNames (db db' : Database) : Prop :=
  (∀ u, db'.usernameOf u = db.usernameOf u) ∧
    (db.BalancesReadable → db'.BalancesReadable)

theorem SameNames.of_users {db db' : Database} (h : db'.users = db.users) :
    db.SameNames db' := by
  constructor
  · intro u
    rw [usernameOf, findUser, h]
    rfl
  · intro hreadable
    rw [BalancesReadable, h]
    exact hreadable

theorem SameNames.trans {db db' db'' : Database} (h : db.SameNames db')
    (h' : db'.SameNames db'') : db.SameNames db'' := by
  constructor
  · intro u
    rw [h'.1, h.1]
  · intro hreadable
    exact h'.2 (h.2 hreadable)

theorem sameNames_setBalance (db : Database) (u : UInt32) (b : Int32) :
    db.SameNames (db.setBalance u b) :=
  ⟨fun v => usernameOf_setBalance db u v b, fun h => h.setBalance u b⟩

/-- The user exists, can be read, and has at least the price. -/
def CanPay (db : Database) (find : ReadOutcome) (userId price : UInt32) :
    Prop :=
  ∃ info, db.getUserInfo find userId = .ok (some info) ∧ ¬ info.balance < price

/-- Whether a balance update takes effect depends on that user only. -/
theorem balanceChanges_setBalance_of_ne {db : Database} {o : BalanceOutcomes}
    {u v : UInt32} {b amount : Int32} (hne : u ≠ v) :
    (db.setBalance u b).BalanceChanges o v amount ↔
      db.BalanceChanges o v amount := by
  simp [BalanceChanges, findUser_setBalance, hne]

end Database

namespace Server

variable {db : Database} {o : PurchaseOutcomes} {listing : AuctionItem}
  {buyerId : UInt32}

/-- The credit is due: the buyer can pay and the seller's balance changes. -/
def CreditApplies (db : Database) (o : PurchaseOutcomes) (listing : AuctionItem)
    (buyerId : UInt32) : Prop :=
  db.CanPay o.buyer buyerId listing.price ∧
    db.BalanceChanges o.credit listing.sellerId listing.price.toInt32

theorem settle_of_not_credit (h : ¬ CreditApplies db o listing buyerId) :
    settle db o listing buyerId = (false, db) := by
  cases hinfo : db.getUserInfo o.buyer buyerId with
  | error e => simp [settle, hinfo]
  | ok info =>
      cases info with
      | none => simp [settle, hinfo]
      | some info =>
          by_cases hpay : info.balance < listing.price
          · simp [settle, hinfo, hpay]
          · have hcredit : ¬ db.BalanceChanges o.credit listing.sellerId
                listing.price.toInt32 := fun hchanges =>
              h ⟨⟨info, hinfo, hpay⟩, hchanges⟩
            simp [settle, hinfo, hpay,
              Database.updateUserBalance_of_not_changes hcredit]

/-- Once the credit applies, it stays, whatever becomes of the debit. -/
theorem settle_of_credit (h : CreditApplies db o listing buyerId) :
    ∃ doc balance, db.findUser listing.sellerId = some doc ∧
      doc.balance = some balance ∧
      let paid := db.setBalance listing.sellerId
        (balance + listing.price.toInt32)
      settle db o listing buyerId =
        if o.credit.update = .done then
          paid.updateUserBalance o.debit buyerId (-listing.price.toInt32)
        else (false, paid) := by
  obtain ⟨⟨info, hinfo, hpay⟩, hchanges⟩ := h
  obtain ⟨-, -, -, doc, balance, hdoc, hbalance, -⟩ := id hchanges
  refine ⟨doc, balance, hdoc, hbalance, ?_⟩
  have hcredit := Database.updateUserBalance_of_changes hchanges hdoc hbalance
  by_cases hdone : o.credit.update = .done
  · simp [settle, hinfo, hpay, hcredit, hdone]
  · simp [settle, hinfo, hpay, hcredit, hdone]

/-- Once the credit applies, nothing but the buyer's balance is written after
it. -/
theorem settle_snd_of_credit (h : CreditApplies db o listing buyerId) :
    ∃ doc balance, db.findUser listing.sellerId = some doc ∧
      doc.balance = some balance ∧
      let paid := db.setBalance listing.sellerId
        (balance + listing.price.toInt32)
      (settle db o listing buyerId).2 = paid ∨
        ∃ b, (settle db o listing buyerId).2 = paid.setBalance buyerId b := by
  obtain ⟨doc, balance, hdoc, hbalance, heq⟩ := settle_of_credit h
  refine ⟨doc, balance, hdoc, hbalance, ?_⟩
  rw [heq]
  by_cases hdone : o.credit.update = .done
  · rw [if_pos hdone]
    rcases Database.updateUserBalance_cases
      (db.setBalance listing.sellerId (balance + listing.price.toInt32))
      o.debit buyerId (-listing.price.toInt32) with
      ⟨-, hdebit⟩ | ⟨doc', balance', -, -, -, -, hdebit⟩
    · exact Or.inl (congrArg Prod.snd hdebit)
    · exact Or.inr ⟨_, congrArg Prod.snd hdebit⟩
  · rw [if_neg hdone]
    exact Or.inl rfl

/-- What no written balance can break survives settling. -/
theorem settle_keeps {P : Database → Prop}
    (hset : ∀ db u b, P db → P (db.setBalance u b)) (o : PurchaseOutcomes)
    (listing : AuctionItem) (buyerId : UInt32) (h : P db) :
    P (settle db o listing buyerId).2 := by
  by_cases hcredit : CreditApplies db o listing buyerId
  · obtain ⟨doc, balance, -, -, hafter⟩ := settle_snd_of_credit hcredit
    have hpaid := hset db listing.sellerId (balance + listing.price.toInt32) h
    rcases hafter with heq | ⟨b, heq⟩
    · rw [heq]
      exact hpaid
    · rw [heq]
      exact hset _ _ _ hpaid
  · rw [settle_of_not_credit hcredit]
    exact h

/-- Settling touches nothing but balances. -/
theorem settle_frame (db : Database) (o : PurchaseOutcomes)
    (listing : AuctionItem) (buyerId : UInt32) :
    (settle db o listing buyerId).2 =
        { db with users := (settle db o listing buyerId).2.users } ∧
      db.SameNames (settle db o listing buyerId).2 := by
  constructor
  · refine settle_keeps (P := fun db' => db' = { db with users := db'.users })
      ?_ o listing buyerId rfl
    intro db' u b h
    rw [Database.setBalance, h]
  · refine settle_keeps (P := db.SameNames) ?_ o listing buyerId
      (Database.SameNames.of_users rfl)
    intro db' u b h
    exact h.trans (Database.sameNames_setBalance db' u b)

/-- Settling succeeds when both balances change and both writes say so. -/
theorem settle_fst_eq_true (hother : listing.sellerId ≠ buyerId) :
    (settle db o listing buyerId).1 = true ↔
      CreditApplies db o listing buyerId ∧ o.credit.update = .done ∧
        db.BalanceChanges o.debit buyerId (-listing.price.toInt32) ∧
        o.debit.update = .done := by
  by_cases h : CreditApplies db o listing buyerId
  · obtain ⟨doc, balance, -, -, heq⟩ := settle_of_credit h
    rw [heq]
    by_cases hdone : o.credit.update = .done
    · rw [if_pos hdone, Database.updateUserBalance_fst_eq_true,
        Database.balanceChanges_setBalance_of_ne hother]
      simp [h, hdone]
    · rw [if_neg hdone]
      simp [hdone]
  · rw [settle_of_not_credit h]
    simp [h]

/-- The debit does not reach the seller's balance. -/
theorem findUser_settle_seller (hother : listing.sellerId ≠ buyerId)
    (h : CreditApplies db o listing buyerId) :
    ∃ doc balance, db.findUser listing.sellerId = some doc ∧
      doc.balance = some balance ∧
      (settle db o listing buyerId).2.findUser listing.sellerId =
        some { doc with balance := some (balance + listing.price.toInt32) } := by
  obtain ⟨doc, balance, hdoc, hbalance, hafter⟩ := settle_snd_of_credit h
  refine ⟨doc, balance, hdoc, hbalance, ?_⟩
  have hpaid : (db.setBalance listing.sellerId
      (balance + listing.price.toInt32)).findUser listing.sellerId =
      some { doc with balance := some (balance + listing.price.toInt32) } := by
    rw [Database.findUser_setBalance, if_pos rfl, hdoc, Option.map_some]
  rcases hafter with heq | ⟨b, heq⟩
  · rw [heq]
    exact hpaid
  · rw [heq, Database.findUser_setBalance, if_neg hother.symm]
    exact hpaid

/-- A credit that applied is still visible after the debit. -/
theorem settle_users_ne (hother : listing.sellerId ≠ buyerId)
    (h : CreditApplies db o listing buyerId) :
    (settle db o listing buyerId).2.users ≠ db.users := by
  obtain ⟨-, -, hamount, -⟩ := h.2
  obtain ⟨doc, balance, hdoc, hbalance, hafter⟩ :=
    findUser_settle_seller hother h
  intro heq
  rw [Database.findUser, heq] at hafter
  have hsame : doc =
      { doc with balance := some (balance + listing.price.toInt32) } :=
    Option.some.inj (hdoc.symm.trans hafter)
  have hbalances := congrArg UserDocument.balance hsame
  rw [hbalance] at hbalances
  have hsum : balance = balance + listing.price.toInt32 :=
    Option.some.inj hbalances
  exact hamount (by simpa using hsum)

/-- The seller of a settled purchase can be read. -/
theorem getUserInfo_settle_seller (hother : listing.sellerId ≠ buyerId)
    (h : CreditApplies db o listing buyerId) (find : ReadOutcome) :
    ∃ info, (settle db o listing buyerId).2.getUserInfo find
      listing.sellerId = .ok info := by
  obtain ⟨doc, balance, -, -, hafter⟩ := findUser_settle_seller hother h
  cases find with
  | raised => exact ⟨none, rfl⟩
  | answered => simp [Database.getUserInfo, hafter]

end Server
end AuctionServer
