import AuctionServer.Core.Item

/-!
# Search criteria

`SearchCriteria` with its cache hash.  The hash folds the bytes of the strings
and the numbers into one accumulator; the page and the page size are not
folded in.
-/

namespace AuctionServer

/-- Search conditions, with the defaults of the declaration. -/
structure SearchCriteria where
  keyword : Bytes := []
  minPrice : UInt32 := 0
  maxPrice : UInt32 := 0
  itemType : UInt32 := 0
  sellerName : Bytes := []
  page : UInt32 := 1
  itemsPerPage : UInt32 := 20
  sortBy : Bytes := literal "price"
  sortOrder : Bytes := literal "asc"
deriving DecidableEq, Inhabited

/-- `h ^= v + 0x9e3779b9 + (h << 6) + (h >> 2)` on a 64-bit `size_t`. -/
def hashStep (h v : UInt64) : UInt64 :=
  h ^^^ (v + (0x9e3779b9 : UInt64) + (h <<< (6 : UInt64)) +
    (h >>> (2 : UInt64)))

/-- `std::hash<char>`: the value of the signed character as `size_t`. -/
def hashChar (c : UInt8) : UInt64 :=
  c.toInt8.toInt64.toUInt64

/-- `hash_combine`: fold the characters of a string. -/
def hashCombine (h : UInt64) (s : Bytes) : UInt64 :=
  s.foldl (fun h c => hashStep h (hashChar c)) h

namespace SearchCriteria

/-- `SearchCriteria::hash`. -/
def hash (criteria : SearchCriteria) : UInt64 :=
  let h := hashCombine 0 criteria.keyword
  let h := hashStep h criteria.minPrice.toUInt64
  let h := hashStep h criteria.maxPrice.toUInt64
  let h := hashStep h criteria.itemType.toUInt64
  let h := hashCombine h criteria.sellerName
  let h := hashCombine h criteria.sortBy
  hashCombine h criteria.sortOrder

/-- `SearchCriteria::isPopularSearch`: a keyword or an item type is given. -/
def isPopularSearch (criteria : SearchCriteria) : Bool :=
  !criteria.keyword.isEmpty || criteria.itemType != 0

/-- The price bounds are in order, or there is no upper bound. -/
def PricesOrdered (criteria : SearchCriteria) : Prop :=
  criteria.maxPrice = 0 ∨ criteria.minPrice ≤ criteria.maxPrice

instance (criteria : SearchCriteria) : Decidable criteria.PricesOrdered :=
  inferInstanceAs (Decidable (_ ∨ _))

end SearchCriteria

end AuctionServer
