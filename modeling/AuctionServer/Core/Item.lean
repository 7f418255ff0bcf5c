import Mathlib

/-!
# Items and auction listings

The records of `Item.h` and `AuctionHouse.h`.  A `std::string` is a sequence
of bytes: names reach the auction house from JSON, from the database and from
direct calls, and nothing on the way checks their encoding.
-/

namespace AuctionServer

/-- The contents of a `std::string`. -/
abbrev Bytes := List UInt8

/-- A string literal of the source. -/
def literal (s : String) : Bytes :=
  s.toList.map fun c => c.toNat.toUInt8

/-- The bytes of an ASCII text are its characters. -/
theorem literal_ascii {s : String} (h : ∀ c ∈ s.toList, c.toNat < 128) :
    ∀ b ∈ literal s, b < 0x80 := by
  intro b hb
  obtain ⟨c, hc, rfl⟩ := List.mem_map.mp hb
  have hlt := h c hc
  rw [UInt8.lt_iff_toNat_lt]
  change c.toNat % 256 < 128
  omega

/-- One named attribute of an item. -/
structure ItemAttribute where
  name : Bytes
  value : Bytes
deriving DecidableEq, Inhabited

/-- An item, whether listed or not. -/
structure Item where
  id : UInt32
  name : Bytes
  description : Bytes
  type : UInt32
  rarity : UInt32
  level : UInt32
  ownerId : UInt32
  attributes : List ItemAttribute
deriving DecidableEq, Inhabited

/-- What `getUserInfo` reports about a user.  The balance has been converted
to an unsigned number. -/
structure UserInfo where
  id : UInt32
  username : Bytes
  balance : UInt32
deriving DecidableEq, Inhabited

/-- Status of a listing; the value-initialized status is `active`. -/
inductive AuctionStatus where
  | active
  | sold
  | expired
  | cancelled
deriving DecidableEq, Inhabited

/-- A `time_t`. -/
abbrev Time := Int64

/-- A listing.  `buyerId` and `soldTime` are zero until it is sold. -/
structure AuctionItem where
  id : UInt64
  item : Item
  sellerId : UInt32
  buyerId : UInt32
  price : UInt32
  status : AuctionStatus
  registrationTime : Time
  expirationTime : Time
  soldTime : Time
deriving DecidableEq, Inhabited

/-- The identifiers collected by an index bucket or a search. -/
abbrev IdSet := Std.ExtTreeSet UInt64

/-! ## Text handling of the standard library -/

/-- `::tolower` on one byte in the classic locale. -/
def toLower (c : UInt8) : UInt8 :=
  if 65 ≤ c ∧ c ≤ 90 then c + 32 else c

/-- `std::transform` of a whole string with `::tolower`. -/
def lowercase (s : Bytes) : Bytes :=
  s.map toLower

/-- White space in the classic locale: tab to carriage return, and blank. -/
def isSpace (c : UInt8) : Bool :=
  (9 ≤ c && c ≤ 13) || c == 32

/-- The words `iss >> word` extracts from a string, in order. -/
def words (s : Bytes) : List Bytes :=
  (s.splitOnP isSpace).filter fun w => !w.isEmpty

/-- `s.find(t) != npos`: the bytes of `t` occur consecutively in `s`. -/
def containsText (s t : Bytes) : Bool :=
  decide (t <:+: s)

end AuctionServer
