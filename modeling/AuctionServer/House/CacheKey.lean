import AuctionServer.House.Criteria

/-!
# What the cache key keeps apart

`SearchCriteria::hash` folds the characters of the keyword, three numbers and
the characters of three more strings into one accumulator, with nothing between
the fields.  Two criteria fold the same values exactly when they are the same
values cut into fields at other places.
-/

namespace AuctionServer

/-! ## Values of characters and numbers -/

/-- A number and a character that fold as one value: the number is the ASCII
code of the character. -/
def Code (n : UInt32) (c : UInt8) : Prop :=
  c < 128 ∧ n = c.toUInt32

instance (n : UInt32) (c : UInt8) : Decidable (Code n c) :=
  inferInstanceAs (Decidable (_ ∧ _))

theorem hashChar_injective : Function.Injective hashChar := by
  have hback : ∀ c, (hashChar c).toUInt8 = c := by decide +kernel
  exact Function.LeftInverse.injective hback

/-- The value of a character below 128 is its code; above, the sign extension
takes it out of the range of the numbers. -/
theorem toUInt64_eq_hashChar {n : UInt32} {c : UInt8} :
    n.toUInt64 = hashChar c ↔ Code n c := by
  by_cases hascii : c < 128
  · have hvalue : ∀ d : UInt8, d < 128 → hashChar d = d.toUInt32.toUInt64 := by
      decide +kernel
    rw [hvalue c hascii, UInt32.toUInt64_inj]
    simp [Code, hascii]
  · have hlarge : ∀ d : UInt8, ¬ d < 128 → 2 ^ 32 ≤ (hashChar d).toNat := by
      decide +kernel
    have hne : n.toUInt64 ≠ hashChar c := by
      intro heq
      have hc := hlarge c hascii
      rw [← heq, UInt32.toNat_toUInt64] at hc
      exact absurd n.toNat_lt (by omega)
    simp [Code, hascii, hne]

theorem hashChar_eq_toUInt64 {n : UInt32} {c : UInt8} :
    hashChar c = n.toUInt64 ↔ Code n c :=
  eq_comm.trans toUInt64_eq_hashChar

/-- Two joined lists with a common kind of head agree when the heads and the
rests do, or when one head goes on into the rest of the other. -/
theorem map_append_eq_map_append_iff {α β : Type} {f : α → β}
    (hf : Function.Injective f) {xs ys : List α} {us vs : List β} :
    xs.map f ++ us = ys.map f ++ vs ↔
      (xs = ys ∧ us = vs) ∨
        (∃ x more, ys = xs ++ x :: more ∧ us = (x :: more).map f ++ vs) ∨
        ∃ y more, xs = ys ++ y :: more ∧ vs = (y :: more).map f ++ us := by
  constructor
  · intro h
    rcases List.append_eq_append_iff.mp h with
      ⟨extra, hys, hus⟩ | ⟨extra, hxs, hvs⟩
    · obtain ⟨xs', more, rfl, hxs', rfl⟩ := List.map_eq_append_iff.mp hys
      obtain rfl := hf.list_map hxs'
      cases more with
      | nil => exact Or.inl ⟨by simp, by simpa using hus⟩
      | cons x more => exact Or.inr (Or.inl ⟨x, more, rfl, hus⟩)
    · obtain ⟨ys', more, rfl, hys', rfl⟩ := List.map_eq_append_iff.mp hxs
      obtain rfl := hf.list_map hys'
      cases more with
      | nil => exact Or.inl ⟨by simp, by simpa using hvs.symm⟩
      | cons y more => exact Or.inr (Or.inr ⟨y, more, rfl, hvs⟩)
  · rintro (⟨rfl, rfl⟩ | ⟨x, more, rfl, rfl⟩ | ⟨y, more, rfl, rfl⟩)
    · rfl
    · simp
    · simp

namespace SearchCriteria

/-! ## The folded values -/

/-- The numbers of the criteria, in the order they are folded. -/
def numbers (criteria : SearchCriteria) : List UInt32 :=
  [criteria.minPrice, criteria.maxPrice, criteria.itemType]

/-- The strings folded after the numbers, joined. -/
def texts (criteria : SearchCriteria) : Bytes :=
  criteria.sellerName ++ criteria.sortBy ++ criteria.sortOrder

/-- The values `hash` folds into its accumulator, in order. -/
def foldedValues (criteria : SearchCriteria) : List UInt64 :=
  criteria.keyword.map hashChar ++
    (criteria.numbers.map UInt32.toUInt64 ++ criteria.texts.map hashChar)

theorem hash_eq_foldl (criteria : SearchCriteria) :
    criteria.hash = criteria.foldedValues.foldl hashStep 0 := by
  simp [hash, hashCombine, foldedValues, numbers, texts, List.foldl_map]

/-- The criteria agree in everything but the page and the page size. -/
structure SameQuery (a b : SearchCriteria) : Prop where
  keyword : a.keyword = b.keyword
  minPrice : a.minPrice = b.minPrice
  maxPrice : a.maxPrice = b.maxPrice
  itemType : a.itemType = b.itemType
  sellerName : a.sellerName = b.sellerName
  sortBy : a.sortBy = b.sortBy
  sortOrder : a.sortOrder = b.sortOrder

/-- The seller name, the sort key and the sort order are one text, cut at other
places. -/
structure Recut (a b : SearchCriteria) : Prop where
  keyword : a.keyword = b.keyword
  numbers : a.numbers = b.numbers
  texts : a.texts = b.texts
  cuts : a.sellerName.length ≠ b.sellerName.length ∨
    a.sortBy.length ≠ b.sortBy.length

/-- The keyword of `b` goes on where that of `a` ends, and what `a` has from
there on stands as many places further right: a number of `a` is a character of
the longer keyword, or a number of `b` a character of the texts of `a`. -/
inductive Slides (a b : SearchCriteria) : Prop
  | one {c d : UInt8}
      (keyword : b.keyword = a.keyword ++ [c])
      (minPrice : Code a.minPrice c)
      (maxPrice : a.maxPrice = b.minPrice)
      (itemType : a.itemType = b.maxPrice)
      (texts : a.texts = d :: b.texts)
      (itemType' : Code b.itemType d)
  | two {c c' d d' : UInt8}
      (keyword : b.keyword = a.keyword ++ [c, c'])
      (minPrice : Code a.minPrice c)
      (maxPrice : Code a.maxPrice c')
      (itemType : a.itemType = b.minPrice)
      (texts : a.texts = d :: d' :: b.texts)
      (maxPrice' : Code b.maxPrice d)
      (itemType' : Code b.itemType d')
  | more {c c' c'' d d' d'' : UInt8} {cs : Bytes}
      (keyword : b.keyword = a.keyword ++ c :: c' :: c'' :: cs)
      (minPrice : Code a.minPrice c)
      (maxPrice : Code a.maxPrice c')
      (itemType : Code a.itemType c'')
      (texts : a.texts = cs ++ d :: d' :: d'' :: b.texts)
      (minPrice' : Code b.minPrice d)
      (maxPrice' : Code b.maxPrice d')
      (itemType' : Code b.itemType d'')

variable {a b : SearchCriteria}

theorem numbers_eq_iff :
    a.numbers = b.numbers ↔
      a.minPrice = b.minPrice ∧ a.maxPrice = b.maxPrice ∧
        a.itemType = b.itemType := by
  simp [numbers]

theorem numbers_map_inj :
    a.numbers.map UInt32.toUInt64 = b.numbers.map UInt32.toUInt64 ↔
      a.numbers = b.numbers := by
  have hinj : Function.Injective UInt32.toUInt64 := fun m n h =>
    UInt32.toUInt64_inj.mp h
  exact hinj.list_map.eq_iff

theorem map_hashChar_inj {s t : Bytes} :
    s.map hashChar = t.map hashChar ↔ s = t :=
  hashChar_injective.list_map.eq_iff

/-- Criteria slide as their values do. -/
theorem slides_iff :
    Slides a b ↔ ∃ c more, b.keyword = a.keyword ++ c :: more ∧
      a.numbers.map UInt32.toUInt64 ++ a.texts.map hashChar =
        (c :: more).map hashChar ++
          (b.numbers.map UInt32.toUInt64 ++ b.texts.map hashChar) := by
  constructor
  · intro h
    cases h with
    | one hkeyword hmin hmax htype htexts htype' =>
        refine ⟨_, [], hkeyword, ?_⟩
        simp [numbers, htexts, toUInt64_eq_hashChar.mpr hmin, hmax, htype,
          toUInt64_eq_hashChar.mpr htype']
    | two hkeyword hmin hmax htype htexts hmax' htype' =>
        refine ⟨_, _, hkeyword, ?_⟩
        simp [numbers, htexts, toUInt64_eq_hashChar.mpr hmin,
          toUInt64_eq_hashChar.mpr hmax, htype, toUInt64_eq_hashChar.mpr hmax',
          toUInt64_eq_hashChar.mpr htype']
    | more hkeyword hmin hmax htype htexts hmin' hmax' htype' =>
        refine ⟨_, _, hkeyword, ?_⟩
        simp [numbers, htexts, toUInt64_eq_hashChar.mpr hmin,
          toUInt64_eq_hashChar.mpr hmax, toUInt64_eq_hashChar.mpr htype,
          toUInt64_eq_hashChar.mpr hmin', toUInt64_eq_hashChar.mpr hmax',
          toUInt64_eq_hashChar.mpr htype']
  · rintro ⟨c, more, hkeyword, hvalues⟩
    -- The number of extra characters says which values meet.
    rcases more with _ | ⟨c', _ | ⟨c'', cs⟩⟩
    · have hmeet : Code a.minPrice c ∧ a.maxPrice = b.minPrice ∧
          a.itemType = b.maxPrice ∧
          ∃ d, a.texts = d :: b.texts ∧ Code b.itemType d := by
        simpa [numbers, toUInt64_eq_hashChar, hashChar_eq_toUInt64,
          UInt32.toUInt64_inj, List.map_eq_cons_iff, map_hashChar_inj]
          using hvalues
      obtain ⟨hmin, hmax, htype, d, htexts, htype'⟩ := hmeet
      exact Slides.one hkeyword hmin hmax htype htexts htype'
    · have hmeet : Code a.minPrice c ∧ Code a.maxPrice c' ∧
          a.itemType = b.minPrice ∧
          ∃ d d', a.texts = d :: d' :: b.texts ∧ Code b.maxPrice d ∧
            Code b.itemType d' := by
        simpa [numbers, toUInt64_eq_hashChar, hashChar_eq_toUInt64,
          UInt32.toUInt64_inj, List.map_eq_cons_iff, map_hashChar_inj]
          using hvalues
      obtain ⟨hmin, hmax, htype, d, d', htexts, hmax', htype'⟩ := hmeet
      exact Slides.two hkeyword hmin hmax htype htexts hmax' htype'
    · have hmeet : Code a.minPrice c ∧ Code a.maxPrice c' ∧
          Code a.itemType c'' ∧
          ∃ d d' d'', a.texts = cs ++ d :: d' :: d'' :: b.texts ∧
            Code b.minPrice d ∧ Code b.maxPrice d' ∧ Code b.itemType d'' := by
        simpa [numbers, toUInt64_eq_hashChar, hashChar_eq_toUInt64,
          List.map_eq_cons_iff, List.map_eq_append_iff, map_hashChar_inj]
          using hvalues
      obtain ⟨hmin, hmax, htype, d, d', d'', htexts, hmin', hmax', htype'⟩ :=
        hmeet
      exact Slides.more hkeyword hmin hmax htype htexts hmin' hmax' htype'

/-- Two criteria fold the same values when only the texts are cut differently,
or when one slides into the other. -/
theorem foldedValues_eq_iff :
    a.foldedValues = b.foldedValues ↔
      (a.keyword = b.keyword ∧ a.numbers = b.numbers ∧ a.texts = b.texts) ∨
        Slides a b ∨ Slides b a := by
  have hrest : a.numbers.map UInt32.toUInt64 ++ a.texts.map hashChar =
        b.numbers.map UInt32.toUInt64 ++ b.texts.map hashChar ↔
      a.numbers = b.numbers ∧ a.texts = b.texts := by
    rw [List.append_eq_append_iff_of_size_eq_left (by simp [numbers]),
      numbers_map_inj, map_hashChar_inj]
  rw [foldedValues, foldedValues, map_append_eq_map_append_iff hashChar_injective,
    hrest, slides_iff, slides_iff]

/-- With the same joined text, the strings are the same unless they are cut at
other places. -/
theorem sameQuery_or_recut (hkeyword : a.keyword = b.keyword)
    (hnumbers : a.numbers = b.numbers) (htexts : a.texts = b.texts) :
    SameQuery a b ∨ Recut a b := by
  by_cases hcuts : a.sellerName.length ≠ b.sellerName.length ∨
      a.sortBy.length ≠ b.sortBy.length
  · exact Or.inr ⟨hkeyword, hnumbers, htexts, hcuts⟩
  · rw [not_or, not_not, not_not] at hcuts
    obtain ⟨hmin, hmax, htype⟩ := numbers_eq_iff.mp hnumbers
    obtain ⟨hfirst, horder⟩ := List.append_inj htexts (by simp [hcuts])
    obtain ⟨hseller, hsort⟩ := List.append_inj hfirst hcuts.1
    exact Or.inl ⟨hkeyword, hmin, hmax, htype, hseller, hsort, horder⟩

theorem Recut.not_sameQuery (h : Recut a b) : ¬ SameQuery a b := by
  intro hsame
  rcases h.cuts with hseller | hsort
  · exact hseller (by rw [hsame.sellerName])
  · exact hsort (by rw [hsame.sortBy])

theorem Slides.not_sameQuery (h : Slides a b) : ¬ SameQuery a b := by
  intro hsame
  obtain ⟨c, more, hkeyword, -⟩ := slides_iff.mp h
  have hlength := congrArg List.length (hsame.keyword.trans hkeyword)
  simp at hlength

theorem SameQuery.symm (h : SameQuery a b) : SameQuery b a where
  keyword := h.keyword.symm
  minPrice := h.minPrice.symm
  maxPrice := h.maxPrice.symm
  itemType := h.itemType.symm
  sellerName := h.sellerName.symm
  sortBy := h.sortBy.symm
  sortOrder := h.sortOrder.symm

/-- The folded values tell two queries apart exactly when neither is the other
with its fields cut at other places. -/
theorem foldedValues_separate_iff (a b : SearchCriteria) :
    (a.foldedValues = b.foldedValues → SameQuery a b) ↔
      ¬ (Recut a b ∨ Slides a b ∨ Slides b a) := by
  constructor
  · rintro hseparate (hrecut | hslides)
    · exact hrecut.not_sameQuery (hseparate (foldedValues_eq_iff.mpr
        (Or.inl ⟨hrecut.keyword, hrecut.numbers, hrecut.texts⟩)))
    · have hsame := hseparate (foldedValues_eq_iff.mpr (Or.inr hslides))
      rcases hslides with hab | hba
      · exact hab.not_sameQuery hsame
      · exact hba.not_sameQuery hsame.symm
  · intro hcut hvalues
    rcases foldedValues_eq_iff.mp hvalues with
      ⟨hkeyword, hnumbers, htexts⟩ | hslides
    · rcases sameQuery_or_recut hkeyword hnumbers htexts with hsame | hrecut
      · exact hsame
      · exact (hcut (Or.inl hrecut)).elim
    · exact (hcut (Or.inr hslides)).elim

/-- What `ann` sells under the keyword `sword`, by price. -/
def soldByAnn : SearchCriteria where
  keyword := literal "sword"
  sellerName := literal "ann"

/-- Every listing under the keyword `sword`, with the sort key `annprice`. -/
def sortedByAnnPrice : SearchCriteria where
  keyword := literal "sword"
  sortBy := literal "annprice"

/-- One seller's listings and the listings of all sellers have one key. -/
theorem seller_shares_key :
    soldByAnn.page = sortedByAnnPrice.page ∧
      soldByAnn.itemsPerPage = sortedByAnnPrice.itemsPerPage ∧
      soldByAnn.foldedValues = sortedByAnnPrice.foldedValues ∧
      ¬ SameQuery soldByAnn sortedByAnnPrice := by
  refine ⟨rfl, rfl, by decide, ?_⟩
  intro hsame
  exact absurd hsame.sellerName (by decide)

/-! ## Queries that share a key -/

/-- A query with any text after the numbers shares its hash with another one,
which looks into the cache when it does.  The default sort key and order are
such text. -/
theorem exists_same_hash {criteria : SearchCriteria}
    (htexts : criteria.texts ≠ []) :
    ∃ other : SearchCriteria, other.page = criteria.page ∧
      other.itemsPerPage = criteria.itemsPerPage ∧
      other.isPopularSearch = criteria.isPopularSearch ∧
      other.hash = criteria.hash ∧ ¬ SameQuery other criteria := by
  -- All the text as the seller name, or none of it.
  have hother : ∀ cut, cut.length ≠ criteria.sellerName.length →
      ∀ rest, cut ++ rest = criteria.texts →
      ∃ other : SearchCriteria, other.page = criteria.page ∧
        other.itemsPerPage = criteria.itemsPerPage ∧
        other.isPopularSearch = criteria.isPopularSearch ∧
        other.hash = criteria.hash ∧ ¬ SameQuery other criteria := by
    intro cut hcut rest hjoin
    let other : SearchCriteria :=
      { criteria with sellerName := cut, sortBy := [], sortOrder := rest }
    have hrecut : Recut other criteria :=
      ⟨rfl, rfl, by simpa [texts, other] using hjoin, Or.inl hcut⟩
    refine ⟨other, rfl, rfl, rfl, ?_, hrecut.not_sameQuery⟩
    rw [hash_eq_foldl, hash_eq_foldl, foldedValues_eq_iff.mpr
      (Or.inl ⟨hrecut.keyword, hrecut.numbers, hrecut.texts⟩)]
  by_cases hall : criteria.sellerName.length = criteria.texts.length
  · have hpos := List.length_pos_iff.mpr htexts
    exact hother [] (by simp only [List.length_nil]; omega) criteria.texts rfl
  · exact hother criteria.texts (Ne.symm hall) [] (List.append_nil _)

end SearchCriteria
end AuctionServer
