import AuctionServer.House.Upkeep

/-!
# Exact indices

The invariant of a house that runs without store errors: its listings agree
with the documents, its indices are exact, and its users have the names they
had when it was started.  One thing can break it.  A seller whose document
holds a balance of another type makes `getUserInfo` throw halfway through
`updateIndices`, when the listing is already stored, in memory and filed under
its type.
-/

namespace AuctionServer

open AuctionHouse (keywordsOf)

/-- The indices file exactly the open listings, and those registered by this
process under their keywords too. -/
structure AuctionHouse.IndicesExact (house : AuctionHouse)
    (name : UInt32 → Option Bytes) (registered : Set UInt64) : Prop where
  type : ∀ type id, house.itemTypeIndex.Holds type id ↔
    ∃ item, house.auctionItems[id]? = some item ∧ item.id = id ∧
      item.status = .active ∧ item.item.type = type
  price : ∀ price id, house.priceIndex.Holds price id ↔
    ∃ item, house.auctionItems[id]? = some item ∧ item.id = id ∧
      item.status = .active ∧ item.price = price
  seller : ∀ n id, house.sellerIndex.Holds n id ↔
    ∃ item, house.auctionItems[id]? = some item ∧ item.id = id ∧
      item.status = .active ∧ name item.sellerId = some n
  keyword : ∀ id ∈ registered, ∀ word, house.keywordIndex.Holds word id ↔
    ∃ item, house.auctionItems[id]? = some item ∧ item.id = id ∧
      item.status = .active ∧
      (word = lowercase item.item.name ∨
        (word ∈ words (lowercase item.item.name) ∧ 3 ≤ word.length))
  noEmpty : house.NoEmptyBucket

namespace Server

/-- The ids of the listings the events registered. -/
def registeredIn (es : List ServerEvent) : Set UInt64 :=
  {id | ∃ e ∈ es, e.output = .registered (.ok id)}

/-- Memory, documents and indices are up to date, and the users are those of
`db` apart from their balances. -/
structure UpToDate (db : Database) (registered : Set UInt64) (s : Server) :
    Prop where
  agreeing : s.Agreeing
  represented : s.Represented registered ∅
  lookups : db.KeepsLookups s.db

variable {s : Server} {db : Database} {registered : Set UInt64}

/-- A represented house has exact indices. -/
theorem Represented.indicesExact (h : s.Represented registered ∅)
    (hkeyed : ∀ (id : UInt64) (item : AuctionItem),
      s.house.auctionItems[id]? = some item → item.id = id) :
    s.house.IndicesExact s.db.usernameOf registered := by
  have hfiles : ∀ k id, s.house.Files k id ↔
      ∃ item, s.house.auctionItems[id]? = some item ∧ item.id = id ∧
        item.status = .active ∧
        k ∈ properKeys registered item (s.db.usernameOf item.sellerId) := by
    intro k id
    rw [h.files k id]
    refine exists_congr fun item => and_congr_right fun hitem => ?_
    simp [hkeyed id item hitem]
  constructor
  · intro type id
    refine (hfiles (.type type) id).trans ?_
    simp [properKeys, AuctionHouse.listingKeys, eq_comm]
  · intro price id
    refine (hfiles (.price price) id).trans ?_
    simp [properKeys, AuctionHouse.listingKeys, eq_comm]
  · intro n id
    refine (hfiles (.seller n) id).trans ?_
    simp [properKeys, AuctionHouse.listingKeys]
  · intro id hid word
    refine (hfiles (.keyword word) id).trans ?_
    refine exists_congr fun item => and_congr_right fun _ =>
      and_congr_right fun hitem => and_congr_right fun _ => ?_
    simp [properKeys, AuctionHouse.listingKeys, keywordsOf, hitem, hid, or_comm]
  · exact h.noEmpty

/-! ## Starts -/

variable {order : List AuctionDocument} {sellers : ℕ → ReadOutcome}

/-- A start over distinct documents is up to date. -/
theorem Starts.upToDate
    (hdistinct : (db.auctions.map AuctionDocument.id).Nodup)
    (hlast : ∀ doc ∈ db.auctions, doc.id.toUInt64 ≠ -1)
    (hsellers : ∀ n, sellers n = .answered)
    (hstart : Starts db order none sellers s) : s.UpToDate db ∅ := by
  have hagreeing := hstart.agreeing hdistinct hlast
  obtain ⟨hperm, house, hhouse, rfl⟩ := restart_eq_some.mp hstart
  have hrebuilt := AuctionHouse.rebuilt_of_construct hsellers hhouse
  have hknown := (AuctionHouse.construct_answered hsellers).mp ⟨house, hhouse⟩
  have hitems : ∀ id item, house.auctionItems[id]? = some item ↔
      item ∈ order.map bsonToItem ∧ item.id = id := fun _ _ =>
    hrebuilt.getElem?_eq_some_iff (nodup_loaded hperm hdistinct)
  refine ⟨hagreeing, ⟨?_, ?_, hrebuilt.noEmpty⟩, Database.KeepsLookups.refl db⟩
  · intro k id
    rw [hrebuilt.files k id]
    simp only [hitems]
    constructor
    · rintro ⟨item, hmem, ⟨hactive, hk⟩, rfl⟩
      exact ⟨item, ⟨hmem, rfl⟩, Or.inl hactive, Or.inl hk⟩
    · rintro ⟨item, ⟨hmem, rfl⟩, hactive | hpending, hk | ⟨hregistered, -⟩⟩
      · exact ⟨item, hmem, ⟨hactive, hk⟩, rfl⟩
      · exact hregistered.elim
      · exact hpending.elim
      · exact hpending.elim
  · intro id item hitem hstatus
    obtain ⟨hmem, -⟩ := (hitems id item).mp hitem
    obtain ⟨doc, hdoc, rfl⟩ := List.mem_map.mp hmem
    rcases hstatus with hactive | hpending
    · exact hknown doc hdoc hactive
    · exact hpending.elim

/-! ## Runs -/

variable [StdSort]

/-- A call without store errors, for a seller who can be looked up, keeps the
house up to date. -/
theorem UpToDate.step {e : ServerEvent} (hfires : machine.Fires e)
    (hanswers : e.input.StoreAnswers) (hprocess : e.input.InProcess)
    (hreadable : e.input.SellerReadable db)
    (hundisturbed : e.before.Undisturbed e.input)
    (h : e.before.UpToDate db registered) :
    e.after.UpToDate db (registered ∪ registeredIn [e]) := by
  have hagreeing := agreeing_preserves e hfires
    ⟨hanswers.writesDone, hundisturbed⟩ h.agreeing
  have hwell := h.agreeing.orderly.wellFiled
  refine ⟨hagreeing, ?_, step_keepsLookups hfires hwell h.lookups⟩
  have hreadable' : e.input.SellerReadable e.before.db := by
    revert hreadable
    cases e.input with
    | registerItem o now sellerId item price =>
        exact fun hreadable => h.lookups.readable sellerId hreadable
    | _ => exact fun h => h
  have hstep := h.represented.step hfires hanswers hprocess hreadable' h.agreeing
  convert hstep using 1
  ext id
  simp [registeredIn]

/-- A run without store errors ends up to date, if the sellers of all
registrations can be looked up. -/
theorem upToDate_run
    (hdistinct : (db.auctions.map AuctionDocument.id).Nodup)
    (hlast : ∀ doc ∈ db.auctions, doc.id.toUInt64 ≠ -1)
    (hsellers : ∀ n, sellers n = .answered)
    {calls : List Call} {es : List ServerEvent}
    (hserve : serve db order none sellers calls = some (es, s))
    (hanswers : ∀ call ∈ calls, call.StoreAnswers)
    (hprocess : ∀ call ∈ calls, call.InProcess)
    (hreadable : ∀ call ∈ calls, call.SellerReadable db)
    (hids : ∀ e ∈ es, e.before.Undisturbed e.input) :
    s.UpToDate db (registeredIn es) := by
  obtain ⟨s₀, hstart, hrun⟩ := serve_eq_some.mp hserve
  have hinput := Machine.run_input_mem hrun
  have hsplit : ∀ (past : List ServerEvent) (e : ServerEvent),
      registeredIn (past ++ [e]) = registeredIn past ∪ registeredIn [e] := by
    intro past e
    ext id
    simp [registeredIn, or_and_right, exists_or]
  have hinitial : s₀.UpToDate db (registeredIn []) := by
    have hnone : registeredIn [] = ∅ := by
      ext id
      simp [registeredIn]
    rw [hnone]
    exact hstart.upToDate hdistinct hlast hsellers
  refine (Machine.run_history ?_ hrun (G := fun e => e ∈ es) (fun _ he => he)
    (I := fun past s => s.UpToDate db (registeredIn past)) hinitial).1
  intro past e hfires he h
  rw [hsplit]
  exact h.step hfires (hanswers _ (hinput e he)) (hprocess _ (hinput e he))
    (hreadable _ (hinput e he)) (hids e he)

omit [StdSort] in
theorem storeAnswers_offer (name : String) : (offer name).StoreAnswers :=
  ⟨rfl, rfl⟩

omit [StdSort] in
theorem storeAnswers_purchase (auctionId : UInt64) :
    (purchase auctionId).StoreAnswers :=
  ⟨rfl, rfl, rfl, ⟨rfl, by simp⟩, rfl⟩

omit [StdSort] in
theorem sellerReadable_offer (name : String) :
    (offer name).SellerReadable market :=
  ⟨_, rfl⟩

omit [StdSort] in
theorem sellerReadable_purchase (auctionId : UInt64) (db : Database) :
    (purchase auctionId).SellerReadable db :=
  trivial

/-- The market with a balance for user 7 that is not an `int32`. -/
def uncountedMarket : Database :=
  { market with
    users := [⟨7, literal "ann", none⟩, ⟨8, literal "bob", some 100⟩] }

end Server
end AuctionServer
