import AuctionServer.Store.SearchCache

/-!
# What the store operations change

For each operation of the database manager: which part of the database it can
touch, when it touches it, and what its result says about that.  The modules
above cite these facts and do not unfold the operations again.
-/

namespace AuctionServer
namespace Database

/-! ## Users -/

@[simp] theorem setBalance_auctions (db : Database) (u : UInt32) (b : Int32) :
    (db.setBalance u b).auctions = db.auctions := rfl

@[simp] theorem setBalance_redis (db : Database) (u : UInt32) (b : Int32) :
    (db.setBalance u b).redis = db.redis := rfl

@[simp] theorem setBalance_redisAvailable
    (db : Database) (u : UInt32) (b : Int32) :
    (db.setBalance u b).redisAvailable = db.redisAvailable := rfl

theorem findUser_setBalance (db : Database) (u v : UInt32) (b : Int32) :
    (db.setBalance u b).findUser v =
      if u = v then
        (db.findUser u).map fun doc => { doc with balance := some b }
      else db.findUser v := by
  have hkey : ∀ doc : UserDocument, doc.id = u.toInt32 →
      UserDocument.id { doc with balance := some b } = u.toInt32 :=
    fun _ h => h
  simp only [findUser, setBalance]
  rw [Collection.findOne_updateOne hkey]
  simp only [toInt32_inj]

/-- Writing back the balance already stored changes nothing. -/
theorem setBalance_eq_self {db : Database} {u : UInt32} {doc : UserDocument}
    {b : Int32} (hdoc : db.findUser u = some doc) (hb : doc.balance = some b) :
    db.setBalance u b = db := by
  have hsame : ({ doc with balance := some b } : UserDocument) = doc := by
    rw [← hb]
  have hmodifies : Collection.modifiesOne UserDocument.id u.toInt32
      (fun d => { d with balance := some b }) db.users = false := by
    simp only [findUser] at hdoc
    simp [Collection.modifiesOne, hdoc, hsame]
  rw [setBalance,
    Collection.updateOne_eq_self_of_modifiesOne_eq_false hmodifies]

/-- The call changes the stored balance: it gets to its write, which takes
effect and writes another number. -/
def BalanceChanges (db : Database) (o : BalanceOutcomes) (userId : UInt32)
    (amount : Int32) : Prop :=
  o.find = .answered ∧ o.update.applied = true ∧ amount ≠ 0 ∧
    ∃ doc balance, db.findUser userId = some doc ∧
      doc.balance = some balance ∧ ¬ balance + amount < 0

theorem updateUserBalance_of_changes {db : Database} {o : BalanceOutcomes}
    {u : UInt32} {amount balance : Int32} {doc : UserDocument}
    (h : db.BalanceChanges o u amount) (hdoc : db.findUser u = some doc)
    (hbalance : doc.balance = some balance) :
    db.updateUserBalance o u amount =
      (decide (o.update = .done), db.setBalance u (balance + amount)) := by
  obtain ⟨hfind, happlied, hamount, doc', balance', hdoc', hbalance', hnonneg⟩ := h
  obtain rfl : doc = doc' := Option.some.inj (hdoc.symm.trans hdoc')
  obtain rfl : balance = balance' :=
    Option.some.inj (hbalance.symm.trans hbalance')
  have hne : balance + amount ≠ balance := by simpa using hamount
  simp only [updateUserBalance, hfind, hdoc, hbalance, if_neg hnonneg,
    WriteOutcome.store, happlied, if_true]
  cases o.update <;> simp [WriteOutcome.reports, hne]

theorem updateUserBalance_of_not_changes {db : Database} {o : BalanceOutcomes}
    {u : UInt32} {amount : Int32} (h : ¬ db.BalanceChanges o u amount) :
    db.updateUserBalance o u amount = (false, db) := by
  cases hfind : o.find with
  | raised => simp [updateUserBalance, hfind]
  | answered =>
      cases hdoc : db.findUser u with
      | none => simp [updateUserBalance, hfind, hdoc]
      | some doc =>
          cases hbalance : doc.balance with
          | none => simp [updateUserBalance, hfind, hdoc, hbalance]
          | some balance =>
              by_cases hneg : balance + amount < 0
              · simp [updateUserBalance, hfind, hdoc, hbalance, hneg]
              · by_cases hamount : amount = 0
                · -- The sum equals the stored balance, so nothing is modified.
                  subst amount
                  have hself := setBalance_eq_self hdoc hbalance
                  rw [Int32.add_zero] at hneg
                  cases hupdate : o.update <;>
                    simp [updateUserBalance, hfind, hdoc, hbalance, hneg,
                      hupdate, WriteOutcome.reports, WriteOutcome.store, hself]
                · have happlied : o.update.applied = false := by
                    by_contra happlied
                    exact h ⟨hfind, by simpa using happlied, hamount, doc,
                      balance, hdoc, hbalance, hneg⟩
                  have hreports : ∀ m, o.update.reports m = false := by
                    intro m
                    cases hupdate : o.update with
                    | done => simp [hupdate, WriteOutcome.applied] at happlied
                    | refused a => rfl
                    | raised a => rfl
                  simp [updateUserBalance, hfind, hdoc, hbalance, hneg,
                    WriteOutcome.store, happlied, hreports]

/-- A balance update either leaves the database alone and reports false, or
writes the new balance. -/
theorem updateUserBalance_cases (db : Database) (o : BalanceOutcomes)
    (u : UInt32) (amount : Int32) :
    (¬ db.BalanceChanges o u amount ∧
        db.updateUserBalance o u amount = (false, db)) ∨
      ∃ doc balance, db.BalanceChanges o u amount ∧
        db.findUser u = some doc ∧ doc.balance = some balance ∧
        ¬ balance + amount < 0 ∧
        db.updateUserBalance o u amount =
          (decide (o.update = .done), db.setBalance u (balance + amount)) := by
  by_cases h : db.BalanceChanges o u amount
  · obtain ⟨-, -, -, doc, balance, hdoc, hbalance, hnonneg⟩ := id h
    exact Or.inr ⟨doc, balance, h, hdoc, hbalance, hnonneg,
      updateUserBalance_of_changes h hdoc hbalance⟩
  · exact Or.inl ⟨h, updateUserBalance_of_not_changes h⟩

theorem updateUserBalance_fst_eq_true {db : Database} {o : BalanceOutcomes}
    {u : UInt32} {amount : Int32} :
    (db.updateUserBalance o u amount).1 = true ↔
      db.BalanceChanges o u amount ∧ o.update = .done := by
  rcases updateUserBalance_cases db o u amount with
    ⟨hno, heq⟩ | ⟨doc, balance, hyes, -, -, -, heq⟩
  · simp [heq, hno]
  · simp [heq, hyes]

/-- The name under which a user's listings are indexed. -/
def usernameOf (db : Database) (u : UInt32) : Option Bytes :=
  (db.findUser u).map UserDocument.username

/-- Every stored balance can be read. -/
def BalancesReadable (db : Database) : Prop :=
  ∀ doc ∈ db.users, doc.balance ≠ none

theorem usernameOf_setBalance (db : Database) (u v : UInt32) (b : Int32) :
    (db.setBalance u b).usernameOf v = db.usernameOf v := by
  rw [usernameOf, findUser_setBalance]
  by_cases huv : u = v
  · subst v
    rw [if_pos rfl, Option.map_map]
    rfl
  · rw [if_neg huv]
    rfl

theorem BalancesReadable.setBalance {db : Database} (h : db.BalancesReadable)
    (u : UInt32) (b : Int32) : (db.setBalance u b).BalancesReadable := by
  intro doc hdoc
  rcases Collection.mem_updateOne hdoc with hdoc | ⟨doc₀, -, rfl⟩
  · exact h doc hdoc
  · simp

/-- A lookup reads nothing but the users. -/
theorem getUserInfo_of_users {db db' : Database} (h : db'.users = db.users)
    (find : ReadOutcome) (u : UInt32) :
    db'.getUserInfo find u = db.getUserInfo find u := by
  simp only [getUserInfo, findUser, h]

/-- A lookup that is answered over readable balances reports the username. -/
theorem getUserInfo_of_readable {db : Database} (h : db.BalancesReadable)
    (u : UInt32) :
    ∃ info, db.getUserInfo .answered u = .ok info ∧
      info.map UserInfo.username = db.usernameOf u := by
  cases hdoc : db.findUser u with
  | none => exact ⟨none, by simp [getUserInfo, hdoc], by simp [usernameOf, hdoc]⟩
  | some doc =>
      cases hbalance : doc.balance with
      | none => exact (h doc (Collection.mem_of_findOne hdoc) hbalance).elim
      | some balance =>
          exact ⟨some ⟨u, doc.username, balance.toUInt32⟩,
            by simp [getUserInfo, hdoc, hbalance], by simp [usernameOf, hdoc]⟩

/-- An answered lookup of the user raises no exception. -/
def Readable (db : Database) (u : UInt32) : Prop :=
  ∃ info, db.getUserInfo .answered u = .ok info

theorem readable_iff {db : Database} {u : UInt32} :
    db.Readable u ↔ ∀ doc, db.findUser u = some doc → doc.balance ≠ none := by
  cases hdoc : db.findUser u with
  | none => simp [Readable, getUserInfo, hdoc]
  | some doc =>
      cases hbalance : doc.balance with
      | none => simp [Readable, getUserInfo, hdoc, hbalance]
      | some balance => simp [Readable, getUserInfo, hdoc, hbalance]

/-- A lookup that raises no exception reports the username. -/
theorem Readable.lookup {db : Database} {u : UInt32} (h : db.Readable u) :
    ∃ info, db.getUserInfo .answered u = .ok info ∧
      info.map UserInfo.username = db.usernameOf u := by
  obtain ⟨info, hinfo⟩ := h
  refine ⟨info, hinfo, ?_⟩
  cases hdoc : db.findUser u with
  | none =>
      simp only [getUserInfo, hdoc, Except.ok.injEq] at hinfo
      simp [← hinfo, usernameOf, hdoc]
  | some doc =>
      cases hbalance : doc.balance with
      | none => simp [getUserInfo, hdoc, hbalance] at hinfo
      | some balance =>
          simp only [getUserInfo, hdoc, hbalance, Except.ok.injEq] at hinfo
          simp [← hinfo, usernameOf, hdoc]

/-- A lookup that returns knows the username or, when its error was caught,
nobody. -/
theorem username_of_getUserInfo {db : Database} {find : ReadOutcome}
    {u : UInt32} {info : Option UserInfo}
    (h : db.getUserInfo find u = .ok info) :
    info = none ∨ info.map UserInfo.username = db.usernameOf u := by
  cases find with
  | raised => exact Or.inl (Except.ok.inj h).symm
  | answered =>
      obtain ⟨info', hinfo', hname⟩ := Readable.lookup ⟨info, h⟩
      obtain rfl : info = info' := Except.ok.inj (h.symm.trans hinfo')
      exact Or.inr hname

theorem Readable.setBalance {db : Database} {v : UInt32} (h : db.Readable v)
    (u : UInt32) (b : Int32) : (db.setBalance u b).Readable v := by
  rw [readable_iff] at h ⊢
  intro doc hdoc
  rw [findUser_setBalance] at hdoc
  split at hdoc
  · obtain ⟨doc₀, -, rfl⟩ := Option.map_eq_some_iff.mp hdoc
    simp
  · exact h doc hdoc

theorem Readable.of_users {db db' : Database} {u : UInt32} (h : db.Readable u)
    (husers : db'.users = db.users) : db'.Readable u := by
  obtain ⟨info, hinfo⟩ := h
  exact ⟨info, (getUserInfo_of_users husers _ _).trans hinfo⟩

/-! ## Auction documents -/

/-- The update takes effect, changes the document, is reported, and the cache
entry is dropped without an exception. -/
def ItemUpdateSucceeds (db : Database) (o : ItemUpdateOutcomes)
    (item : AuctionItem) : Prop :=
  o.update = .done ∧ db.modifiesAuction item = true ∧
    (db.redisAvailable = true → ∀ applied, o.del ≠ .raised applied)

@[simp] theorem setAuction_users (db : Database) (item : AuctionItem) :
    (db.setAuction item).users = db.users := rfl

@[simp] theorem setAuction_redisAvailable (db : Database) (item : AuctionItem) :
    (db.setAuction item).redisAvailable = db.redisAvailable := rfl

@[simp] theorem setAuction_redis (db : Database) (item : AuctionItem) :
    (db.setAuction item).redis = db.redis := rfl

theorem redisDel_snd (db : Database) (del : WriteOutcome) (key : String) :
    (db.redisDel del key).2 =
      { db with redis := del.store db.redis (db.redis.erase key) } := by
  cases h : del.applied <;> simp [redisDel, WriteOutcome.store, h]

/-- The database that comes out of dropping a cache entry does not depend on
the reply. -/
theorem redisDel_reply_snd (db : Database) (del : WriteOutcome) (key : String)
    (modified : Bool) :
    (match db.redisDel del key with
      | (.error e, cleaned) => (Except.error e, cleaned)
      | (.ok (), cleaned) => (.ok modified, cleaned)).2 =
      { db with redis := del.store db.redis (db.redis.erase key) } := by
  rw [← redisDel_snd]
  cases del <;> rfl

/-- What an item update leaves: the document collection as its write outcome
says, and at most the cached item dropped. -/
theorem updateAuctionItem_snd (db : Database) (o : ItemUpdateOutcomes)
    (item : AuctionItem) :
    ∃ redis, (redis = db.redis ∨
        redis = db.redis.erase (getItemCacheKey item.id)) ∧
      (db.updateAuctionItem o item).2 =
        { db with
          auctions := o.update.store db.auctions (db.setAuction item).auctions
          redis := redis } := by
  have hwritten : o.update.store db (db.setAuction item) =
      { db with
        auctions :=
          o.update.store db.auctions (db.setAuction item).auctions } := by
    cases h : o.update.applied <;> simp [WriteOutcome.store, h, setAuction]
  cases hupdate : o.update with
  | raised a =>
      refine ⟨db.redis, Or.inl rfl, ?_⟩
      simp only [updateAuctionItem, hupdate] at hwritten ⊢
      rw [hwritten]
  | done | refused =>
      rw [hupdate] at hwritten
      by_cases havail : db.redisAvailable = true
      · refine ⟨o.del.store db.redis (db.redis.erase (getItemCacheKey item.id)),
          WriteOutcome.store_cases _ _ _, ?_⟩
        simp only [updateAuctionItem, hupdate, hwritten, havail, if_true]
        exact redisDel_reply_snd _ _ _ _
      · refine ⟨db.redis, Or.inl rfl, ?_⟩
        simp [updateAuctionItem, hupdate, hwritten, havail]

@[simp] theorem updateAuctionItem_users (db : Database)
    (o : ItemUpdateOutcomes) (item : AuctionItem) :
    (db.updateAuctionItem o item).2.users = db.users := by
  obtain ⟨redis, -, heq⟩ := updateAuctionItem_snd db o item
  rw [heq]

@[simp] theorem updateAuctionItem_redisAvailable (db : Database)
    (o : ItemUpdateOutcomes) (item : AuctionItem) :
    (db.updateAuctionItem o item).2.redisAvailable = db.redisAvailable := by
  obtain ⟨redis, -, heq⟩ := updateAuctionItem_snd db o item
  rw [heq]

@[simp] theorem updateAuctionItem_auctions (db : Database)
    (o : ItemUpdateOutcomes) (item : AuctionItem) :
    (db.updateAuctionItem o item).2.auctions =
      o.update.store db.auctions (db.setAuction item).auctions := by
  obtain ⟨redis, -, heq⟩ := updateAuctionItem_snd db o item
  rw [heq]

theorem updateAuctionItem_fst_eq_true {db : Database} {o : ItemUpdateOutcomes}
    {item : AuctionItem} :
    (db.updateAuctionItem o item).1 = .ok true ↔
      db.ItemUpdateSucceeds o item := by
  cases hupdate : o.update with
  | raised a => simp [updateAuctionItem, ItemUpdateSucceeds, hupdate]
  | refused a =>
      by_cases havail : db.redisAvailable = true
      · cases hdel : o.del <;>
          simp [updateAuctionItem, ItemUpdateSucceeds, hupdate, redisDel, hdel,
            WriteOutcome.reports, havail, apply_ite Database.redisAvailable, WriteOutcome.store]
      · simp [updateAuctionItem, ItemUpdateSucceeds, hupdate,
          WriteOutcome.reports, havail, WriteOutcome.store,
          apply_ite Database.redisAvailable]
  | done =>
      by_cases havail : db.redisAvailable = true
      · cases hdel : o.del <;>
          simp [updateAuctionItem, ItemUpdateSucceeds, hupdate, redisDel, hdel,
            WriteOutcome.reports, havail]
      · simp [updateAuctionItem, ItemUpdateSucceeds, hupdate,
          WriteOutcome.reports, havail]

/-- An update reported as done has written its document. -/
theorem ItemUpdateSucceeds.auctions_eq {db : Database} {o : ItemUpdateOutcomes}
    {item : AuctionItem} (h : db.ItemUpdateSucceeds o item) :
    (db.updateAuctionItem o item).2.auctions =
      (db.setAuction item).auctions := by
  rw [updateAuctionItem_auctions, h.1, WriteOutcome.store_done]

/-! ## Cache keys -/

/-- A key that ends in a number names the number. -/
theorem keyOfNumber_inj (front : String) {a b : UInt64} :
    front ++ toString a.toNat = front ++ toString b.toNat ↔ a = b := by
  constructor
  · intro heq
    have hrepr : Nat.repr a.toNat = Nat.repr b.toNat := by
      simpa using heq
    exact UInt64.toNat_inj.mp (Nat.repr_inj.mp hrepr)
  · rintro rfl
    rfl

theorem getSearchCacheKey_inj {h h' : UInt64} :
    getSearchCacheKey h = getSearchCacheKey h' ↔ h = h' :=
  keyOfNumber_inj "search:"

theorem getItemCacheKey_inj {id id' : UInt64} :
    getItemCacheKey id = getItemCacheKey id' ↔ id = id' :=
  keyOfNumber_inj "item:"

/-- The key of a search is never the key of an item. -/
theorem getSearchCacheKey_ne_getItemCacheKey (h id : UInt64) :
    getSearchCacheKey h ≠ getItemCacheKey id := by
  intro heq
  have hhead := congrArg (fun s => s.toList.head?) heq
  simp [getSearchCacheKey, getItemCacheKey] at hhead

end Database
end AuctionServer
