import Mathlib.Logic.Function.Basic

/-!
# A cache beside a store

A store holds records by key, and a cache beside it holds encoded records.  A
read decodes the entry of its key; if there is none it asks the store and
caches what it finds.  A write drops the entry of its key.

The cache is coherent when every entry encodes the record the store holds.
The operations keep it coherent, and then a read is right exactly when the
codec loses nothing of the record that goes through it (`read_eq_iff`).
-/

/-- What a read shows of a record, and how a record is cached. -/
structure LookAside (δ α β : Type) where
  view : δ → α
  encode : δ → Option β
  decode : β → Option α

namespace LookAside

variable {κ δ α β : Type} (C : LookAside δ α β)

/-- Every entry is the encoding of the record with its key. -/
def Coherent (store : κ → Option δ) (cache : κ → Option β) : Prop :=
  ∀ k b, cache k = some b → ∃ d, store k = some d ∧ C.encode d = some b

/-- What a read returns, by the record and the entry of its key.  A record that
cannot be encoded is not returned. -/
def read (record : Option δ) (entry : Option β) : Option α :=
  match entry with
  | some b => C.decode b
  | none => record.bind fun d => (C.encode d).map fun _ => C.view d

/-- Decoding the encoding of the record gives all it shows. -/
def Recovers (d : δ) : Prop :=
  ∀ b, C.encode d = some b → C.decode b = some (C.view d)

variable {C} {store store' : κ → Option δ} {cache cache' : κ → Option β}
  {k : κ}

/-- On a coherent cache a read shows the record of its key exactly when that
record can be encoded, or is cached and recovered. -/
theorem read_eq_iff (h : C.Coherent store cache) :
    C.read (store k) (cache k) = (store k).map C.view ↔
      ∀ d, store k = some d →
        (cache k = none ∧ ∃ b, C.encode d = some b) ∨
          (cache k ≠ none ∧ C.Recovers d) := by
  cases hentry : cache k with
  | none =>
      cases hrecord : store k with
      | none => simp [read]
      | some d =>
          cases hencode : C.encode d with
          | none => simp [read, hencode]
          | some b => simp [read, hencode]
  | some b =>
      obtain ⟨d, hrecord, hencode⟩ := h k b hentry
      have hrecovers : C.Recovers d ↔ C.decode b = some (C.view d) := by
        constructor
        · intro hrec
          exact hrec b hencode
        · intro hdecode b' hb'
          obtain rfl := Option.some.inj (hencode.symm.trans hb')
          exact hdecode
      simp [read, hrecord, hrecovers]

theorem Coherent.of_empty (h : ∀ k, cache k = none) : C.Coherent store cache := by
  intro k b hb
  rw [h k] at hb
  cases hb

/-- Entries may disappear at any time. -/
theorem Coherent.forget (h : C.Coherent store cache)
    (hless : ∀ k b, cache' k = some b → cache k = some b) :
    C.Coherent store cache' :=
  fun k b hb => h k b (hless k b hb)

/-- A read that finds no entry puts one there. -/
theorem Coherent.fill (h : C.Coherent store cache) {d : δ} {b : β}
    (hrecord : store k = some d) (hencode : C.encode d = some b)
    (hfilled : cache' k = some b) (hrest : ∀ k', k' ≠ k → cache' k' = cache k') :
    C.Coherent store cache' := by
  intro k' b' hb'
  by_cases hk : k' = k
  · subst k'
    obtain rfl := Option.some.inj (hfilled.symm.trans hb')
    exact ⟨d, hrecord, hencode⟩
  · rw [hrest k' hk] at hb'
    exact h k' b' hb'

/-- A write may do anything to the record of its key, whose entry is dropped. -/
theorem Coherent.write (h : C.Coherent store cache) (hdropped : cache' k = none)
    (hrest : ∀ k', k' ≠ k → cache' k' = cache k' ∧ store' k' = store k') :
    C.Coherent store' cache' := by
  intro k' b' hb'
  have hk : k' ≠ k := by
    rintro rfl
    rw [hdropped] at hb'
    cases hb'
  obtain ⟨hcache, hstore⟩ := hrest k' hk
  rw [hcache] at hb'
  rw [hstore]
  exact h k' b' hb'

/-- A record that hides no other needs no entry dropped. -/
theorem Coherent.insert (h : C.Coherent store cache)
    (hkept : ∀ k d, store k = some d → store' k = some d) :
    C.Coherent store' cache := by
  intro k b hb
  obtain ⟨d, hrecord, hencode⟩ := h k b hb
  exact ⟨d, hkept k d hrecord, hencode⟩

end LookAside
