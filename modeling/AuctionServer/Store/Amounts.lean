import AuctionServer.Store.Effects

/-!
# Balances as numbers

What the `int32` balances of the users are worth, as integers, and what a
written balance does to the balance of each user and to the total.
-/

namespace AuctionServer

/-! ## Casts and sums -/

theorem neg_iff_toInt_neg {b : Int32} : b < 0 ↔ b.toInt < 0 := by
  rw [Int32.lt_iff_toInt_lt, Int32.toInt_zero]

theorem toNat_toUInt32_of_nonneg {b : Int32} (hb : 0 ≤ b.toInt) :
    (b.toUInt32.toNat : ℤ) = b.toInt := by
  have hbits : b.toInt =
      if 2 * b.toUInt32.toNat < 2 ^ 32 then (b.toUInt32.toNat : ℤ)
      else (b.toUInt32.toNat : ℤ) - (2 ^ 32 : ℕ) :=
    BitVec.toInt_eq_toNat_cond b.toBitVec
  have hlt := b.toUInt32.toNat_lt
  omega

theorem toInt_toInt32_of_lt {p : UInt32} (hp : p.toNat < 2 ^ 31) :
    p.toInt32.toInt = p.toNat := by
  have hbits : p.toInt32.toInt =
      if 2 * p.toNat < 2 ^ 32 then (p.toNat : ℤ)
      else (p.toNat : ℤ) - (2 ^ 32 : ℕ) :=
    BitVec.toInt_eq_toNat_cond p.toBitVec
  omega

/-- A price that a nonnegative balance covers is the same number in either
type. -/
theorem price_of_covered {b : Int32} {p : UInt32} (hb : 0 ≤ b.toInt)
    (hcovered : ¬ b.toUInt32 < p) :
    p.toInt32.toInt = p.toNat ∧ (p.toNat : ℤ) ≤ b.toInt := by
  have hle : p.toNat ≤ b.toUInt32.toNat :=
    UInt32.le_iff_toNat_le.mp (UInt32.not_lt.mp hcovered)
  have hvalue := toNat_toUInt32_of_nonneg hb
  have hlt := b.toInt_lt
  have hp : p.toNat < 2 ^ 31 := by
    omega
  refine ⟨toInt_toInt32_of_lt hp, ?_⟩
  omega

/-- A sum with a nonnegative number that does not come out negative is
exact. -/
theorem toInt_add_of_nonneg {a b : Int32} (ha : 0 ≤ a.toInt)
    (hsum : ¬ a + b < 0) : (a + b).toInt = a.toInt + b.toInt := by
  have ha' := a.toInt_lt
  have hb' := b.toInt_lt
  have hb'' := b.le_toInt
  rw [neg_iff_toInt_neg, Int32.toInt_add, Int.bmod_def] at hsum
  rw [Int32.toInt_add, Int.bmod_def]
  omega

theorem toInt_sub_of_le {a b : Int32} (hb : 0 ≤ b.toInt)
    (hle : b.toInt ≤ a.toInt) : (a + -b).toInt = a.toInt - b.toInt := by
  have ha := a.toInt_lt
  have hneg : (-b).toInt = -b.toInt := by
    rw [Int32.toInt_neg, Int.bmod_def]
    omega
  rw [Int32.toInt_add, hneg, Int.bmod_def]
  omega

namespace Database

variable {db : Database}

/-! ## Balances of users -/

/-- What a stored balance is worth. -/
def worth (doc : UserDocument) : ℤ :=
  doc.balance.elim 0 Int32.toInt

/-- What a user has; zero for a user there is not. -/
def balanceOf (db : Database) (u : UInt32) : ℤ :=
  (db.findUser u).elim 0 worth

/-- What all users have together. -/
def total (db : Database) : ℤ :=
  (db.users.map worth).sum

theorem balanceOf_of_users {db' : Database} (h : db'.users = db.users)
    (u : UInt32) : db'.balanceOf u = db.balanceOf u := by
  simp only [balanceOf, findUser, h]

theorem balanceOf_setBalance {u v : UInt32} {b : Int32} {doc : UserDocument}
    (hdoc : db.findUser u = some doc) :
    (db.setBalance u b).balanceOf v =
      if u = v then b.toInt else db.balanceOf v := by
  rw [balanceOf, findUser_setBalance]
  by_cases huv : u = v
  · rw [if_pos huv, if_pos huv, hdoc]
    rfl
  · rw [if_neg huv, if_neg huv]
    rfl

/-- A written balance changes the total by what it changes the balance. -/
theorem total_setBalance {u : UInt32} {b : Int32} {doc : UserDocument}
    (hdoc : db.findUser u = some doc) :
    (db.setBalance u b).total = db.total + (b.toInt - worth doc) :=
  Collection.sum_updateOne hdoc

/-- Every balance can be read and is not negative. -/
def NonNegative (db : Database) : Prop :=
  ∀ doc ∈ db.users, ∃ b, doc.balance = some b ∧ 0 ≤ b.toInt

theorem NonNegative.of_users {db' : Database} (h : db.NonNegative)
    (husers : db'.users = db.users) : db'.NonNegative := by
  rw [NonNegative, husers]
  exact h

theorem NonNegative.balance (h : db.NonNegative) {u : UInt32}
    {doc : UserDocument} (hdoc : db.findUser u = some doc) :
    ∃ b, doc.balance = some b ∧ 0 ≤ b.toInt :=
  h doc (Collection.mem_of_findOne hdoc)

theorem NonNegative.setBalance (h : db.NonNegative) (u : UInt32) {b : Int32}
    (hb : 0 ≤ b.toInt) : (db.setBalance u b).NonNegative := by
  intro doc hdoc
  rcases Collection.mem_updateOne hdoc with hold | ⟨doc₀, -, rfl⟩
  · exact h doc hold
  · exact ⟨b, rfl, hb⟩

/-- A balance update never leaves a negative balance, not even when the sum
wraps around. -/
theorem NonNegative.updateUserBalance (h : db.NonNegative) (o : BalanceOutcomes)
    (u : UInt32) (amount : Int32) :
    (db.updateUserBalance o u amount).2.NonNegative := by
  rcases updateUserBalance_cases db o u amount with
    ⟨-, heq⟩ | ⟨doc, balance, -, -, -, hnonneg, heq⟩
  · rw [heq]
    exact h
  · rw [heq]
    rw [neg_iff_toInt_neg, not_lt] at hnonneg
    exact h.setBalance u hnonneg

/-- Every user has a unique id and a balance that can be read and is not
negative. -/
structure Solvent (db : Database) : Prop where
  unique : (db.users.map UserDocument.id).Nodup
  nonneg : ∀ doc ∈ db.users, ∃ b, doc.balance = some b ∧ 0 ≤ b.toInt

theorem Solvent.of_users {db' : Database} (h : db.Solvent)
    (husers : db'.users = db.users) : db'.Solvent := by
  constructor
  · rw [husers]
    exact h.unique
  · rw [husers]
    exact h.nonneg

theorem users_setBalance_ids (db : Database) (u : UInt32) (b : Int32) :
    (db.setBalance u b).users.map UserDocument.id =
      db.users.map UserDocument.id :=
  Collection.keys_updateOne fun _ h => h

theorem Solvent.setBalance (h : db.Solvent) {u : UInt32} {b : Int32}
    (hb : 0 ≤ b.toInt) : (db.setBalance u b).Solvent := by
  constructor
  · rw [users_setBalance_ids]
    exact h.unique
  · intro doc hdoc
    rcases Collection.mem_updateOne hdoc with hold | ⟨doc₀, -, rfl⟩
    · exact h.nonneg doc hold
    · exact ⟨b, rfl, hb⟩

theorem Solvent.balance (h : db.Solvent) {u : UInt32} {doc : UserDocument}
    (hdoc : db.findUser u = some doc) :
    ∃ b, doc.balance = some b ∧ 0 ≤ b.toInt :=
  h.nonneg doc (Collection.mem_of_findOne hdoc)

end Database
end AuctionServer
