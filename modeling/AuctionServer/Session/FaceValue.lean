import AuctionServer.Session.Answers
import AuctionServer.Session.Authentication
import AuctionServer.House.Sales

/-!
# Integers of a request

A message carries its numbers as JSON integers of any size and sign, and the
handlers convert them to unsigned fields without a check of the range.  What is
done for a request is done for the integers it carries exactly when they fit
their fields, or when the request is refused for another reason.
-/

namespace AuctionServer

open ClientSession

/-! ## Conversions -/

/-- The member, if it is there and an integer, fits a field of so many bits. -/
def Fits (bits : ℕ) (key : String) (data : Json) : Prop :=
  ∀ n, data.field key = some (.integer n) → 0 ≤ n ∧ n < 2 ^ bits

theorem toNat_ofInt_uint32 {n : ℤ} (h : 0 ≤ n ∧ n < 2 ^ 32) :
    ((UInt32.ofInt n).toNat : ℤ) = n := by
  rw [UInt32.ofInt, UInt32.toNat_ofNat']
  omega

theorem toNat_ofInt_uint64 {n : ℤ} (h : 0 ≤ n ∧ n < 2 ^ 64) :
    ((UInt64.ofInt n).toNat : ℤ) = n := by
  rw [UInt64.ofInt, UInt64.toNat_ofNat']
  omega

variable {data : Json} {key : String}

theorem fits_of_field {bits : ℕ} {n : ℕ} (hn : n < 2 ^ bits)
    (h : data.field key = some (.integer n)) : Fits bits key data := by
  intro m hm
  obtain rfl := Json.integer.inj (Option.some.inj (hm.symm.trans h))
  exact ⟨Int.natCast_nonneg n, by exact_mod_cast hn⟩

theorem fits_uint32 {n : UInt32}
    (h : data.field key = some (.integer n.toNat)) : Fits 32 key data :=
  fits_of_field n.toNat_lt h

theorem fits_uint64 {n : UInt64}
    (h : data.field key = some (.integer n.toNat)) : Fits 64 key data :=
  fits_of_field n.toNat_lt h

/-- What is read of an integer that fits is the integer. -/
theorem field_of_getUInt32 {j : Json} {n : UInt32} (hfits : Fits 32 key data)
    (hfield : data.field key = some j) (hinteger : ∃ m, j = .integer m)
    (hread : j.getUInt32 = some n) :
    data.field key = some (.integer n.toNat) := by
  obtain ⟨m, rfl⟩ := hinteger
  have hvalue : UInt32.ofInt m = n := by
    simpa [Json.getUInt32, Json.numeric] using hread
  rw [hfield, ← hvalue, toNat_ofInt_uint32 (hfits m hfield)]

theorem field_of_getUInt64 {j : Json} {n : UInt64} (hfits : Fits 64 key data)
    (hfield : data.field key = some j) (hinteger : ∃ m, j = .integer m)
    (hread : j.getUInt64 = some n) :
    data.field key = some (.integer n.toNat) := by
  obtain ⟨m, rfl⟩ := hinteger
  have hvalue : UInt64.ofInt m = n := by
    simpa [Json.getUInt64, Json.numeric] using hread
  rw [hfield, ← hvalue, toNat_ofInt_uint64 (hfits m hfield)]

/-! ## Requests -/

/-- The members of a search that are numbers, with the criteria they set. -/
def searchNumbers (criteria : SearchCriteria) : List (String × UInt32) :=
  [("min_price", criteria.minPrice), ("max_price", criteria.maxPrice),
    ("item_type", criteria.itemType), ("page", criteria.page),
    ("items_per_page", criteria.itemsPerPage)]

/-- The members of a request that are numbers. -/
def numberKeys : List String :=
  ["item_id", "price", "auction_id"] ++ (searchNumbers {}).map Prod.fst

/-- Every number of the request is an integer. -/
def IntegersSent (data : Json) : Prop :=
  ∀ key ∈ numberKeys, ∀ j, data.field key = some j → ∃ n, j = .integer n

/-- A registration with everything it needs. -/
def Complete (data : Json) : Prop :=
  data.contains "item_id" = true ∧ data.contains "price" = true ∧
    ∃ name, data.field "item_name" = some (.string name)

/-- The message is of this type. -/
def OfType (type : String) (data : Json) : Prop :=
  data.field "type" = some (text type)

/-- The integers the request is processed with fit the fields they are
converted to. -/
structure InRange (data : Json) : Prop where
  register : OfType "register_item" data → Complete data →
    Fits 32 "item_id" data ∧ Fits 32 "price" data
  auction : OfType "purchase_item" data ∨ OfType "cancel_listing" data →
    Fits 64 "auction_id" data
  search : OfType "search_items" data →
    ∀ f ∈ searchNumbers {}, Fits 32 f.1 data

/-! ## What a request does -/

section Doing

variable [StdSort] [JsonText] (o : MessageOutcomes) (data : Json)
  (before after : Exchange Server)

/-- The request is answered with an error. -/
def Refused : Prop :=
  ∃ refusal, after.session.writer =
    before.session.writer.send (JsonText.text (errorReply refusal))

/-- A listing is stored, in memory and in the database, with the integers of the
request, and its id is sent. -/
def RegistersSent : Prop :=
  ∃ (auctionId : UInt64) (listing : AuctionItem), 0 < auctionId ∧
    after = answered before after.house (registerReply (.ok auctionId)) ∧
    before.house.house.nextAuctionId = auctionId ∧
    after.house.house.auctionItems[auctionId]? = some listing ∧
    after.house.db.auctions =
      before.house.db.auctions ++ [itemToBson listing] ∧
    data.field "item_id" = some (.integer listing.item.id.toNat) ∧
    data.field "price" = some (.integer listing.price.toNat)

/-- The listing with the id of the request leaves the market, and no other
listing changes. -/
def ClosesSent (closed : AuctionItem → AuctionItem) : Prop :=
  ∃ (auctionId : UInt64) (listing : AuctionItem),
    data.field "auction_id" = some (.integer auctionId.toNat) ∧
    before.house.house.auctionItems[auctionId]? = some listing ∧
    listing.status = .active ∧
    after.house.house.auctionItems[auctionId]? = some (closed listing) ∧
    ∀ id : UInt64, id ≠ auctionId →
      after.house.house.auctionItems[id]? = before.house.house.auctionItems[id]?

/-- The search is one for the integers of the request, and is answered with what
it finds. -/
def SearchesSent : Prop :=
  ∃ (criteria : SearchCriteria) (result : Except StoreException (List AuctionItem)),
    (∀ f ∈ searchNumbers criteria, ∀ j, data.field f.1 = some j →
      j = .integer f.2.toNat) ∧
    before.house.searchItems o.search criteria = some (result, after.house) ∧
    after = answered before after.house
      (searchReply criteria (Server.seen result))

/-- What the types of request do when they take their integers at face value. -/
structure ActsAsSent : Prop where
  register : OfType "register_item" data → RegistersSent data before after
  purchase : OfType "purchase_item" data →
    ClosesSent data before after fun listing =>
      Server.soldListing listing before.session.userId o.now
  cancel : OfType "cancel_listing" data →
    ClosesSent data before after Server.cancelledListing
  search : OfType "search_items" data → SearchesSent o data before after

end Doing

/-- Whenever a message with this content is processed over a reachable house, it
is refused or does what the integers in it say. -/
def TakenAtFaceValue (data : Json) : Prop :=
  ∀ [StdSort] [JsonText] (message : Bytes) (o : MessageOutcomes)
    (before after : Exchange Server) (result : Except MessageException Unit),
    JsonText.parse message = .ok data → before.house.Reachable →
    processMessage (Crowd.circumstances o) message before =
      some (result, after) →
    Refused before after ∨ ActsAsSent o data before after

/-! ## Integers that fit -/

theorem failureReply_eq (e : MessageException) :
    ∃ refusal, failureReply e = errorReply refusal := by
  cases e with
  | parseError => exact ⟨_, rfl⟩
  | other => exact ⟨_, rfl⟩

theorem OfType.unique {a b : String} (h : OfType a data) (h' : OfType b data) :
    literal a = literal b :=
  Json.string.inj (Option.some.inj (h.symm.trans h'))

/-- A registration that returns an id has stored its listing under it. -/
theorem Server.registerItem_eq_ok {s : Server} {o : Server.RegisterOutcomes}
    {now : Time} {sellerId : UInt32} {item : Item} {price : UInt32} {id : UInt64}
    (h : (s.registerItem o now sellerId item price).1 = .ok id) (hpos : 0 < id) :
    s.house.nextAuctionId = id ∧
      (s.registerItem o now sellerId item price).2.house.auctionItems[id]? =
        some (newListing id now sellerId item price) ∧
      (s.registerItem o now sellerId item price).2.db.auctions =
        s.db.auctions ++ [itemToBson (newListing id now sellerId item price)] := by
  by_cases hinsert : o.insert = .done
  · obtain ⟨keys, house, heq, -, hitems, -⟩ :=
      registerItem_of_done s now sellerId item price hinsert
    have hid : s.house.nextAuctionId = id := by
      rcases hfiling : s.filing o now sellerId item price with ⟨result, filed⟩
      rw [registerItem_of_filing s now sellerId item price hinsert hfiling] at h
      cases result with
      | error e => cases h
      | ok u => exact Except.ok.inj h
    subst hid
    rw [heq]
    refine ⟨rfl, ?_, rfl⟩
    rw [hitems, Std.ExtTreeMap.getElem?_insert_self]
  · rw [registerItem_of_ne_done s now sellerId item price hinsert] at h
    obtain rfl := Except.ok.inj h
    exact absurd hpos (by decide)

/-- A number of a search that fits is taken as it is. -/
theorem numberOr_integer {j : Json} {otherwise : UInt32}
    (hfits : Fits 32 key data) (hfield : data.field key = some j)
    (hinteger : ∃ n, j = .integer n) :
    j = .integer (numberOr key data otherwise).toNat := by
  obtain ⟨n, rfl⟩ := hinteger
  have hread : numberOr key data otherwise = UInt32.ofInt n := by
    simp [numberOr, hfield, Json.isNumber, Json.getUInt32, Json.numeric]
  rw [hread, toNat_ofInt_uint32 (hfits n hfield)]

theorem criteriaOf_numbers (hsent : IntegersSent data)
    (hfits : ∀ f ∈ searchNumbers {}, Fits 32 f.1 data) :
    ∀ f ∈ searchNumbers (criteriaOf data), ∀ j, data.field f.1 = some j →
      j = .integer f.2.toNat := by
  have hnumber : ∀ (key : String) (otherwise : UInt32),
      (key, otherwise) ∈ searchNumbers {} → ∀ j, data.field key = some j →
        j = .integer (numberOr key data otherwise).toNat := by
    intro key otherwise hmem j hj
    have hkey : key ∈ numberKeys :=
      List.mem_append_right _ (List.mem_map_of_mem hmem)
    exact numberOr_integer (hfits _ hmem) hj (hsent key hkey j hj)
  simp only [searchNumbers, List.forall_mem_cons, List.not_mem_nil, false_imp_iff,
    implies_true, and_true]
  exact ⟨hnumber "min_price" _ (by simp [searchNumbers]),
    hnumber "max_price" _ (by simp [searchNumbers]),
    hnumber "item_type" _ (by simp [searchNumbers]),
    hnumber "page" _ (by simp [searchNumbers]),
    hnumber "items_per_page" _ (by simp [searchNumbers])⟩

section Taken

variable [StdSort] [JsonText] {o : MessageOutcomes} {message : Bytes}
  {before after : Exchange Server} {result : Except MessageException Unit}

omit [StdSort] in
theorem refused_of_errorReply {refusal : Bytes} {house : Server}
    (h : after = answered before house (errorReply refusal)) :
    Refused before after :=
  ⟨refusal, by rw [h]; rfl⟩

omit [StdSort] in
theorem refused_of_failureReply {e : MessageException} {house : Server}
    (h : after = answered before house (failureReply e)) :
    Refused before after := by
  obtain ⟨refusal, hrefusal⟩ := failureReply_eq e
  rw [hrefusal] at h
  exact refused_of_errorReply h

omit [StdSort] in
/-- The exchange after a message, from an equation for it. -/
theorem after_eq {c : Circumstances Server} {after' : Exchange Server}
    (h : processMessage c message before = some (result, after))
    (heq : processMessage c message before = some (.ok (), after')) :
    after = after' :=
  (Prod.mk.inj (Option.some.inj (h.symm.trans heq))).2

/-- A registration whose integers fit stores them, or is refused. -/
theorem register_taken (hparse : JsonText.parse message = .ok data)
    (hsent : IntegersSent data) (htype : OfType "register_item" data)
    (hrange : Complete data → Fits 32 "item_id" data ∧ Fits 32 "price" data)
    (h : processMessage (Crowd.circumstances o) message before =
      some (result, after)) :
    Refused before after ∨ RegistersSent data before after := by
  by_cases hreads : before.session.authenticated = true ∧
      ∃ itemId itemName price, ReadsItem data itemId itemName price
  · obtain ⟨hauth, itemId, itemName, price, hreads⟩ := hreads
    obtain ⟨jid, hjid, hgetid⟩ := Option.bind_eq_some_iff.mp hreads.itemId
    obtain ⟨jname, hjname, hgetname⟩ := Option.bind_eq_some_iff.mp hreads.itemName
    obtain ⟨jprice, hjprice, hgetprice⟩ := Option.bind_eq_some_iff.mp hreads.price
    have hname : jname = .string itemName := by
      cases jname <;> simp_all [Json.getString]
    have hcomplete : Complete data :=
      ⟨field_of_bind hreads.itemId, field_of_bind hreads.price, itemName,
        by rw [hjname, hname]⟩
    obtain ⟨hfitsid, hfitsprice⟩ := hrange hcomplete
    have hid := field_of_getUInt32 hfitsid hjid
      (hsent "item_id" (by simp [numberKeys]) jid hjid) hgetid
    have hprice := field_of_getUInt32 hfitsprice hjprice
      (hsent "price" (by simp [numberKeys]) jprice hjprice) hgetprice
    set call := before.house.registerItem o.register o.now before.session.userId
      (itemFor o.unset before.session.userId itemId itemName) price with hcall
    have hafter := after_eq h (processMessage_register hparse htype hauth hreads
      (show (Crowd.circumstances o).house.registerItem _ _ _ before.house =
        some (Server.seen call.1, call.2) from rfl))
    rcases hresult : call.1 with e | auctionId
    · have hreply : registerReply (Server.seen (.error e)) =
          failureReply .other := rfl
      rw [hresult, hreply] at hafter
      exact Or.inl (refused_of_failureReply hafter)
    · rw [hresult] at hafter
      by_cases hpos : 0 < auctionId
      · obtain ⟨hnext, hlisted, hstored⟩ :=
          Server.registerItem_eq_ok hresult hpos
        right
        subst hafter
        exact ⟨auctionId, _, hpos, rfl, hnext, hlisted, hstored, hid, hprice⟩
      · have hreply : registerReply (Server.seen (.ok auctionId)) =
            errorReply (literal "Failed to register item") := if_neg hpos
        rw [hreply] at hafter
        exact Or.inl (refused_of_errorReply hafter)
  · obtain ⟨refusal, hrefused⟩ := @processMessage_register_refused _ _
      (Crowd.circumstances o) message data before hparse htype (by
        by_cases hauth : before.session.authenticated = true
        · right
          intro itemId itemName price hitem
          exact hreads ⟨hauth, itemId, itemName, price, hitem⟩
        · exact Or.inl (by simpa using hauth))
    exact Or.inl (refused_of_errorReply (after_eq h hrefused))

/-- A purchase or a cancellation whose id fits closes the listing with this id,
or is refused. -/
theorem auction_taken {purchase : Bool}
    {call : UInt64 → UInt32 → Program MessageException Server Bool}
    {success failure : String} {closed : AuctionItem → AuctionItem}
    (hparse : JsonText.parse message = .ok data) (hsent : IntegersSent data)
    (htype : OfType (if purchase then "purchase_item" else "cancel_listing") data)
    (hfits : Fits 64 "auction_id" data)
    (hhandler : auctionHandler (Crowd.circumstances o) purchase data =
      handleAuction call success failure data)
    (hsuccess : utf8Valid (literal success) = true)
    (hfailure : utf8Valid (literal failure) = true)
    (hcall : ∀ auctionId, ∃ r house,
      call auctionId before.session.userId before.house = some (r, house) ∧
        (r = .ok true → ∃ listing : AuctionItem,
          before.house.house.auctionItems[auctionId]? = some listing ∧
          listing.status = .active ∧
          house.house.auctionItems =
            before.house.house.auctionItems.insert auctionId (closed listing)))
    (h : processMessage (Crowd.circumstances o) message before =
      some (result, after)) :
    Refused before after ∨ ClosesSent data before after closed := by
  have hanswer := @processMessage_auction _ _ (Crowd.circumstances o) message data
    before purchase hparse htype
  by_cases hauth : before.session.authenticated = true
  · rw [if_pos hauth, hhandler] at hanswer
    cases hid : (data.field "auction_id").bind Json.getUInt64 with
    | none =>
        obtain ⟨refusal, hrefused⟩ := @handle_handleAuction_refused _ _ data before
          call success failure hid
        exact Or.inl (refused_of_errorReply (after_eq h (hanswer.trans hrefused)))
    | some auctionId =>
        obtain ⟨r, house, hreturns, hcloses⟩ := hcall auctionId
        have hafter := after_eq h
          (hanswer.trans (handle_handleAuction hsuccess hfailure hid hreturns))
        match r, hcloses with
        | .error e, _ =>
            have hreply : auctionReply success failure (.error e) =
                failureReply e := rfl
            rw [hreply] at hafter
            exact Or.inl (refused_of_failureReply hafter)
        | .ok false, _ =>
            have hreply : auctionReply success failure (.ok false) =
                errorReply (literal failure) := rfl
            rw [hreply] at hafter
            exact Or.inl (refused_of_errorReply hafter)
        | .ok true, hcloses =>
            obtain ⟨listing, hlisting, hactive, hitems⟩ := hcloses rfl
            obtain ⟨j, hj, hget⟩ := Option.bind_eq_some_iff.mp hid
            have hfield := field_of_getUInt64 hfits hj
              (hsent "auction_id" (by simp [numberKeys]) j hj) hget
            have hhouse : after.house = house := by rw [hafter]; rfl
            refine Or.inr ⟨auctionId, listing, hfield, hlisting, hactive, ?_, ?_⟩
            · rw [hhouse, hitems, Std.ExtTreeMap.getElem?_insert_self]
            · intro id hne
              rw [hhouse, hitems, Std.ExtTreeMap.getElem?_insert, if_neg]
              simpa using hne.symm
  · rw [if_neg hauth] at hanswer
    exact Or.inl (refused_of_errorReply (after_eq h hanswer))

/-- A search whose integers fit is one for these integers. -/
theorem search_taken (hparse : JsonText.parse message = .ok data)
    (hsent : IntegersSent data) (htype : OfType "search_items" data)
    (hfits : ∀ f ∈ searchNumbers {}, Fits 32 f.1 data)
    (h : processMessage (Crowd.circumstances o) message before =
      some (result, after)) :
    SearchesSent o data before after := by
  cases hsearch : before.house.searchItems o.search (criteriaOf data) with
  | none =>
      have hstuck := @processMessage_search_none _ _ (Crowd.circumstances o)
        message data before hparse htype (by
          change Option.map _ (before.house.searchItems o.search
            (criteriaOf data)) = none
          rw [hsearch]
          rfl)
      rw [hstuck] at h
      cases h
  | some found =>
      obtain ⟨found, house⟩ := found
      have hcall : (Crowd.circumstances o).house.searchItems (criteriaOf data)
          before.house = some (Server.seen found, house) := by
        change Option.map _ (before.house.searchItems o.search
          (criteriaOf data)) = _
        rw [hsearch]
        rfl
      have hafter := after_eq h (processMessage_search hparse htype hcall)
      have hhouse : after.house = house := by rw [hafter]; rfl
      refine ⟨criteriaOf data, found, ?_, by rw [hsearch, hhouse], by
        rw [hhouse]; exact hafter⟩
      exact criteriaOf_numbers hsent hfits

end Taken

/-- A request whose integers fit is refused or does what they say. -/
theorem takenAtFaceValue_of_inRange (hsent : IntegersSent data)
    (hrange : InRange data) : TakenAtFaceValue data := by
  intro _ _ message o before after result hparse _ h
  by_cases hregister : OfType "register_item" data
  · refine (register_taken hparse hsent hregister (hrange.register hregister)
      h).imp_right fun hdone => ⟨fun _ => hdone, ?_, ?_, ?_⟩
    · exact fun htype => absurd (hregister.unique htype) (by decide)
    · exact fun htype => absurd (hregister.unique htype) (by decide)
    · exact fun htype => absurd (hregister.unique htype) (by decide)
  by_cases hpurchase : OfType "purchase_item" data
  · refine (@auction_taken data _ _ o message before after result true
      (Crowd.circumstances o).house.purchaseItem "Item purchased successfully"
      "Failed to purchase item"
      (fun listing => Server.soldListing listing before.session.userId o.now)
      hparse hsent hpurchase (hrange.auction (Or.inl hpurchase)) rfl
      (utf8Valid_literal (by simp)) (utf8Valid_literal (by simp)) ?_ h).imp_right
      fun hdone =>
        ⟨fun htype => (hregister htype).elim, fun _ => hdone, ?_, ?_⟩
    · intro auctionId
      refine ⟨.ok (before.house.purchaseItem o.purchase o.now auctionId
          before.session.userId).1,
        (before.house.purchaseItem o.purchase o.now auctionId
          before.session.userId).2, rfl, ?_⟩
      intro htrue
      obtain ⟨listing, hoffer, -, -, hafter⟩ :=
        Server.purchaseItem_eq_true (Except.ok.inj htrue)
      refine ⟨listing, hoffer.1, hoffer.2.1, ?_⟩
      rw [hafter, Server.afterClose_items]
      rfl
    · exact fun htype => absurd (hpurchase.unique htype) (by decide)
    · exact fun htype => absurd (hpurchase.unique htype) (by decide)
  by_cases hcancel : OfType "cancel_listing" data
  · refine (@auction_taken data _ _ o message before after result false
      (Crowd.circumstances o).house.cancelListing
      "Listing cancelled successfully" "Failed to cancel listing"
      Server.cancelledListing hparse hsent hcancel
      (hrange.auction (Or.inr hcancel)) rfl (utf8Valid_literal (by simp))
      (utf8Valid_literal (by simp)) ?_ h).imp_right fun hdone =>
        ⟨fun htype => (hregister htype).elim,
          fun htype => (hpurchase htype).elim, fun _ => hdone, ?_⟩
    · intro auctionId
      refine ⟨Server.seen (before.house.cancelListing o.cancel auctionId
          before.session.userId).1,
        (before.house.cancelListing o.cancel auctionId
          before.session.userId).2, rfl, ?_⟩
      intro htrue
      have hcancelled : (before.house.cancelListing o.cancel auctionId
          before.session.userId).1 = .ok true := by
        cases hresult : (before.house.cancelListing o.cancel auctionId
            before.session.userId).1 with
        | error e =>
            rw [hresult] at htrue
            cases htrue
        | ok succeeded =>
            rw [hresult] at htrue
            rw [Except.ok.inj htrue]
      obtain ⟨listing, hcancellable, -, hafter⟩ :=
        Server.cancelListing_eq_true hcancelled
      refine ⟨listing, hcancellable.1, hcancellable.2.1, ?_⟩
      rw [hafter, Server.afterClose_items]
      rfl
    · exact fun htype => absurd (hcancel.unique htype) (by decide)
  exact Or.inr ⟨fun htype => (hregister htype).elim,
    fun htype => (hpurchase htype).elim, fun htype => (hcancel htype).elim,
    fun htype => search_taken hparse hsent htype (hrange.search htype) h⟩

/-! ## Requests that go through -/

/-- A parser that takes every message for this one, and texts that show the
status of a reply. -/
@[reducible] def statusText (data : Json) : JsonText where
  parse _ := .ok data
  text
    | .object ((_, .string status) :: _) => status
    | _ => []

/-- User 1001 has just logged in. -/
def visitor : ClientSession :=
  ClientSession.initial.logIn

/-- A success is not taken for an error. -/
theorem not_refused {house house' : Server} {fields : List (String × Json)} :
    ¬ @Refused (statusText data) ⟨visitor, house⟩
      (@answered _ (statusText data) ⟨visitor, house⟩ house'
        (.object (("status", text "success") :: fields))) := by
  rintro ⟨refusal, hwriter⟩
  have hqueue := congrArg Writer.writeQueue hwriter
  simp only [answered, Writer.send_writeQueue] at hqueue
  have hstatus := List.singleton_inj.mp (List.append_inj' hqueue rfl).2
  exact absurd (show literal "success" = literal "error" from hstatus)
    (by decide)

/-- What a request does that goes through. -/
theorem actsAsSent_of_success [StdSort] (h : TakenAtFaceValue data)
    {o : MessageOutcomes} {s s' : Server} (hreach : s.Reachable)
    {fields : List (String × Json)}
    (hprocess : @processMessage _ (statusText data) (Crowd.circumstances o) []
        ⟨visitor, s⟩ =
      some (.ok (), @answered _ (statusText data) ⟨visitor, s⟩ s'
        (.object (("status", text "success") :: fields)))) :
    @ActsAsSent _ (statusText data) o data ⟨visitor, s⟩
      (@answered _ (statusText data) ⟨visitor, s⟩ s'
        (.object (("status", text "success") :: fields))) := by
  have hdone := @h _ (statusText data) [] o _ _ _ rfl hreach hprocess
  exact hdone.resolve_left not_refused

/-- An empty house over the market. -/
def emptyHouse : Server where
  house := AuctionHouse.initial
  db := Server.market

theorem reachable_emptyHouse [StdSort] : emptyHouse.Reachable :=
  ⟨Server.market, [], none, fun _ => .answered, [], [], rfl⟩

/-- A registration that stores the integers of the request can store them. -/
theorem RegistersSent.fits [JsonText] {before after : Exchange Server}
    (h : RegistersSent data before after) :
    Fits 32 "item_id" data ∧ Fits 32 "price" data := by
  obtain ⟨auctionId, listing, -, -, -, -, -, hid, hprice⟩ := h
  exact ⟨fits_uint32 hid, fits_uint32 hprice⟩

theorem ClosesSent.fits {before after : Exchange Server}
    {closed : AuctionItem → AuctionItem}
    (h : ClosesSent data before after closed) : Fits 64 "auction_id" data := by
  obtain ⟨auctionId, listing, hid, -⟩ := h
  exact fits_uint64 hid

theorem SearchesSent.fits [StdSort] [JsonText] {o : MessageOutcomes}
    {before after : Exchange Server} (h : SearchesSent o data before after) :
    ∀ f ∈ searchNumbers {}, Fits 32 f.1 data := by
  obtain ⟨criteria, result, hnumbers, -⟩ := h
  have hfits : ∀ f ∈ searchNumbers criteria, Fits 32 f.1 data := by
    intro f hf n hn
    exact fits_uint32 (hn.trans (by rw [hnumbers f hf _ hn])) n hn
  simpa [searchNumbers] using hfits

/-- A registration goes through when its document is stored and the lookup of
the seller finds nothing. -/
theorem Server.registerItem_unread (s : Server) {o : Server.RegisterOutcomes}
    (now : Time) (sellerId : UInt32) (item : Item) (price : UInt32)
    (hinsert : o.insert = .done) (hseller : o.seller = .raised) :
    (s.registerItem o now sellerId item price).1 = .ok s.house.nextAuctionId := by
  obtain ⟨house, hfiling, -⟩ := @AuctionHouse.updateIndices_ok
    (s.accepted now sellerId item price) (s.stored now sellerId item price)
    o.seller (newListing s.house.nextAuctionId now sellerId item price) none rfl
    (by rw [hseller]; rfl)
  rw [registerItem_of_filing s now sellerId item price hinsert hfiling]
  rfl

/-- A complete registration goes through in the empty house. -/
theorem register_fits (h : TakenAtFaceValue data) (hsent : IntegersSent data)
    (htype : OfType "register_item" data) (hcomplete : Complete data) :
    Fits 32 "item_id" data ∧ Fits 32 "price" data := by
  obtain ⟨hid, hprice, name, hname⟩ := hcomplete
  obtain ⟨jid, hjid⟩ := Option.isSome_iff_exists.mp hid
  obtain ⟨jprice, hjprice⟩ := Option.isSome_iff_exists.mp hprice
  obtain ⟨itemId, rfl⟩ := hsent "item_id" (by simp [numberKeys]) jid hjid
  obtain ⟨price, rfl⟩ := hsent "price" (by simp [numberKeys]) jprice hjprice
  have hreads : ReadsItem data (UInt32.ofInt itemId) name (UInt32.ofInt price) :=
    ⟨by rw [hjid]; rfl, by rw [hname]; rfl, by rw [hjprice]; rfl⟩
  let o : MessageOutcomes := { (default : MessageOutcomes) with
    register := ⟨.done, .raised⟩ }
  set call := emptyHouse.registerItem o.register o.now visitor.userId
    (itemFor o.unset visitor.userId (UInt32.ofInt itemId) name)
    (UInt32.ofInt price) with hcall
  have hone : call.1 = .ok 1 :=
    emptyHouse.registerItem_unread _ _ _ _ rfl rfl
  let _ := StdSort.insertion
  let _ := statusText data
  have hprocess := @processMessage_register _ _ (Crowd.circumstances o) [] data
    ⟨visitor, emptyHouse⟩ call.2 rfl htype rfl _ _ _ hreads (Server.seen call.1)
    rfl
  rw [hone] at hprocess
  exact ((actsAsSent_of_success h reachable_emptyHouse hprocess).register
    htype).fits

/-- Without listings a search is defined, whatever its criteria. -/
theorem emptyHouse_candidates (criteria : SearchCriteria) :
    ∃ ids, emptyHouse.house.candidates criteria = some ids := by
  unfold AuctionHouse.candidates
  split
  · exact ⟨_, rfl⟩
  · split
    · exact ⟨_, rfl⟩
    · split
      · exact ⟨_, rfl⟩
      · split
        · cases hscan : emptyHouse.house.priceIndex.collectRange
            criteria.minPrice criteria.maxPrice with
          | some ids => exact ⟨ids, rfl⟩
          | none =>
              obtain ⟨k, hk, -⟩ := Buckets.collectRange_eq_none_iff.mp hscan
              simp [emptyHouse, AuctionHouse.initial] at hk
        · exact ⟨_, rfl⟩

/-- And it finds nothing. -/
theorem searchItems_emptyHouse [StdSort] {o : SearchOutcomes}
    (hget : o.get = .raised) (criteria : SearchCriteria) :
    ∃ s', emptyHouse.searchItems o criteria = some (.ok [], s') := by
  obtain ⟨ids, hids⟩ := emptyHouse_candidates criteria
  have hnone : ids.toList = [] := by
    rw [List.eq_nil_iff_forall_not_mem]
    intro id hid
    have hknown := (Server.wellFiled_initial Server.market).candidates_known hids
      (Std.ExtTreeSet.mem_toList.mp hid)
    simp [AuctionHouse.initial] at hknown
  have hsorted : sortResults [] criteria.sortBy criteria.sortOrder = [] :=
    List.perm_nil.mp (Server.sortResults_perm [] _ _)
  have huncached : emptyHouse.searchUncached o.sellers criteria =
      some (.ok [], emptyHouse.house) := by
    simp [Server.searchUncached, Server.selectItems, hids, hnone,
      AuctionHouse.filterMatches, hsorted, applyPagination]
  have hcached : emptyHouse.cachedResults o criteria = none := by
    simp [Server.cachedResults, Database.getCachedSearch, hget]
  rw [Server.searchItems, hcached, huncached]
  exact ⟨_, rfl⟩

/-- A search goes through in the empty house. -/
theorem search_fits (h : TakenAtFaceValue data)
    (htype : OfType "search_items" data) :
    ∀ f ∈ searchNumbers {}, Fits 32 f.1 data := by
  let o : MessageOutcomes := { (default : MessageOutcomes) with
    search := { (default : SearchOutcomes) with get := .raised } }
  let _ := StdSort.insertion
  let _ := statusText data
  obtain ⟨s', hsearch⟩ := @searchItems_emptyHouse _ o.search rfl (criteriaOf data)
  have hcall : (Crowd.circumstances o).house.searchItems (criteriaOf data)
      emptyHouse = some (.ok [], s') := by
    change Option.map _ (emptyHouse.searchItems o.search (criteriaOf data)) = _
    rw [hsearch]
    rfl
  have hprocess := @processMessage_search _ _ (Crowd.circumstances o) [] data
    ⟨visitor, emptyHouse⟩ s' rfl htype _ hcall
  rw [searchReply_of_dumps (by simp [NamesDump])] at hprocess
  exact ((actsAsSent_of_success h reachable_emptyHouse hprocess).search
    htype).fits

/-! ### A house with one listing -/

/-- An open listing that costs one. -/
def shopListing (id : UInt64) (sellerId : UInt32) : AuctionItem :=
  { Server.newListing id 0 sellerId (Server.itemNamed "iron sword") 1 with
    expirationTime := 0 }

/-- The seller and the visitor, and the listing. -/
def shop (id : UInt64) (sellerId : UInt32) : Database where
  auctions := [itemToBson (shopListing id sellerId)]
  users := [⟨7, literal "ann", some 0⟩, ⟨1001, literal "carl", some 100⟩]
  redisAvailable := false
  redis := ∅

/-- A house can be started over the shop. -/
theorem exists_shop_starts (id : UInt64) (sellerId : UInt32) :
    ∃ s, Server.Starts (shop id sellerId) (shop id sellerId).auctions none
      (fun _ => .raised) s := by
  have hdelivered : Database.loadAllAuctionItems (shop id sellerId).auctions none =
      [shopListing id sellerId] := by
    simp [Database.loadAllAuctionItems, shop]
  obtain ⟨house, hupdate, -⟩ := @AuctionHouse.updateIndices_ok
    (AuctionHouse.initial.setItem (shopListing id sellerId).id
      (shopListing id sellerId))
    (shop id sellerId) .raised (shopListing id sellerId) none rfl rfl
  obtain ⟨house', hload⟩ : ∃ house', AuctionHouse.initial.loadItem
      (shop id sellerId) .raised (shopListing id sellerId) =
        (.ok (), house') := by
    simp [AuctionHouse.loadItem, hupdate]
  refine ⟨{ house := house', db := shop id sellerId },
    Server.restart_eq_some.mpr ⟨List.Perm.refl _, house', ?_, rfl⟩⟩
  rw [AuctionHouse.construct, hdelivered, AuctionHouse.loadItems, hload]
  rfl

/-- The house over the shop holds the listing, and its document. -/
theorem exists_shop [StdSort] (id : UInt64) (sellerId : UInt32) :
    ∃ s : Server, s.Reachable ∧ s.db = shop id sellerId ∧
      s.house.auctionItems[id]? = some (shopListing id sellerId) ∧
      s.ListingsStored := by
  obtain ⟨s, hstart⟩ := exists_shop_starts id sellerId
  have hreach : s.Reachable :=
    ⟨_, _, none, _, [], [], Server.serve_eq_some.mpr ⟨s, hstart, rfl⟩⟩
  obtain ⟨-, hdb, hloaded⟩ := Server.restart_loaded False.elim hstart
  have hdelivered : Database.loadAllAuctionItems (shop id sellerId).auctions none =
      [shopListing id sellerId] := by
    simp [Database.loadAllAuctionItems, shop]
  rw [hdelivered] at hloaded
  have honly : ∀ (i : UInt64) item, s.house.auctionItems[i]? = some item →
      item = shopListing id sellerId ∧ id = i := by
    intro i item hitem
    obtain ⟨hmem, hid⟩ := hloaded.items i item hitem
    obtain rfl := List.mem_singleton.mp hmem
    exact ⟨rfl, hid⟩
  refine ⟨s, hreach, hdb, ?_, ?_⟩
  · obtain ⟨item, hitem⟩ := Server.exists_item_of_mem
      (hloaded.kept _ (List.mem_singleton_self _))
    rw [(honly _ _ hitem).1] at hitem
    exact hitem
  · intro i item hitem
    obtain ⟨rfl, rfl⟩ := honly i item hitem
    refine ⟨itemToBson (shopListing id sellerId), ?_, bsonToItem_itemToBson _⟩
    rw [hdb]
    simp [Database.findAuction, Collection.findOne, shop, itemToBson,
      shopListing, Server.newListing]

/-- A purchase goes through in the shop. -/
theorem purchase_fits (h : TakenAtFaceValue data)
    (htype : OfType "purchase_item" data) : Fits 64 "auction_id" data := by
  intro n hn
  have hid : (data.field "auction_id").bind Json.getUInt64 =
      some (UInt64.ofInt n) := by
    rw [hn]
    rfl
  let _ := StdSort.insertion
  let _ := statusText data
  obtain ⟨s, hreach, hdb, hlisting, hstored⟩ := exists_shop (UInt64.ofInt n) 7
  let o : MessageOutcomes := { (default : MessageOutcomes) with
    purchase := ⟨.answered, ⟨.answered, .done⟩, ⟨.answered, .done⟩,
      ⟨.done, .done⟩, .answered⟩ }
  have hbought : (s.purchaseItem o.purchase o.now (UInt64.ofInt n) 1001).1 =
      true := by
    have hanswered : o.purchase.Answered :=
      ⟨rfl, rfl, rfl, ⟨rfl, fun _ => by simp [o]⟩, rfl⟩
    have hnonneg : s.db.NonNegative := by
      rw [hdb]
      simp only [Database.NonNegative, shop, List.forall_mem_cons,
        List.not_mem_nil, false_imp_iff, implies_true, and_true]
      exact ⟨⟨0, rfl, by decide⟩, ⟨100, rfl, by decide⟩⟩
    refine (Server.purchaseItem_answered hreach.wellFiled hstored hnonneg hanswered
      o.now).mpr ⟨_, ⟨hlisting, rfl, ?_⟩, ?_, ?_⟩
    · exact show (7 : UInt32) ≠ 1001 by decide
    · rw [hdb]
      refine ⟨⟨7, literal "ann", some 0⟩, ⟨1001, literal "carl", some 100⟩, rfl,
        rfl, ?_, ?_⟩
      · exact show ((1 : UInt32).toNat : ℤ) ≤ (100 : Int32).toInt by decide
      · exact show (0 : Int32).toInt + (1 : UInt32).toNat ≤ 2 ^ 31 - 1 by decide
    · exact show (1 : UInt32) ≠ 0 by decide
  have hanswer := @processMessage_auction _ _ (Crowd.circumstances o) [] data
    ⟨visitor, s⟩ true rfl htype
  have hprocess := (hanswer.trans (if_pos rfl)).trans (@handle_handleAuction _ _ data ⟨visitor, s⟩
    (s.purchaseItem o.purchase o.now (UInt64.ofInt n) 1001).2
    (Crowd.circumstances o).house.purchaseItem "Item purchased successfully"
    "Failed to purchase item" (utf8Valid_literal (by simp))
    (utf8Valid_literal (by simp)) _ hid
    (.ok (s.purchaseItem o.purchase o.now (UInt64.ofInt n) 1001).1) rfl)
  rw [hbought] at hprocess
  exact ((actsAsSent_of_success h hreach hprocess).purchase htype).fits n hn

/-- A cancellation goes through in the shop of the visitor. -/
theorem cancel_fits (h : TakenAtFaceValue data)
    (htype : OfType "cancel_listing" data) : Fits 64 "auction_id" data := by
  intro n hn
  have hid : (data.field "auction_id").bind Json.getUInt64 =
      some (UInt64.ofInt n) := by
    rw [hn]
    rfl
  let _ := StdSort.insertion
  let _ := statusText data
  obtain ⟨s, hreach, hdb, hlisting, hstored⟩ := exists_shop (UInt64.ofInt n) 1001
  let o : MessageOutcomes := { (default : MessageOutcomes) with
    cancel := ⟨⟨.done, .done⟩, .raised⟩ }
  have hcancelled : (s.cancelListing o.cancel (UInt64.ofInt n) 1001).1 =
      .ok true := by
    refine (Server.cancelListing_of_cancellable o.cancel
      ⟨hlisting, rfl, rfl⟩).2.mpr ⟨?_, none, rfl⟩
    refine Server.itemUpdateSucceeds_of_stored hreach.wellFiled hstored rfl
      (by simp [o]) hlisting rfl ?_
    intro hsame
    cases congrArg AuctionItem.status hsame
  have hanswer := @processMessage_auction _ _ (Crowd.circumstances o) [] data
    ⟨visitor, s⟩ false rfl htype
  have hprocess := (hanswer.trans (if_pos rfl)).trans
    (@handle_handleAuction _ _ data ⟨visitor, s⟩
      (s.cancelListing o.cancel (UInt64.ofInt n) 1001).2
      (Crowd.circumstances o).house.cancelListing "Listing cancelled successfully"
      "Failed to cancel listing" (utf8Valid_literal (by simp))
      (utf8Valid_literal (by simp)) _ hid
      (Server.seen (s.cancelListing o.cancel (UInt64.ofInt n) 1001).1) rfl)
  rw [hcancelled] at hprocess
  exact ((actsAsSent_of_success h hreach hprocess).cancel htype).fits n hn

/-- A registration that asks for a price of 2 ^ 32 + 5. -/
def costlyRequest : Json :=
  .object [("type", text "register_item"), ("item_id", .integer 1),
    ("item_name", text "iron sword"), ("price", .integer (2 ^ 32 + 5))]

/-- A search for prices up to a hundred. -/
def modestRequest : Json :=
  .object [("type", text "search_items"), ("max_price", .integer 100)]

end AuctionServer
