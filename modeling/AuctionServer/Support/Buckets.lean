import Mathlib

/-!
# Ordered bucket indices

An inverted index maps a key to the bucket of identifiers filed under it.  It
is an ordered map of ordered sets, so that walking it visits the keys in
increasing order.  The operations below are the ones an index maintained by
hand needs: filing an identifier under a key, withdrawing it from one key or
from all of them, and collecting the buckets between two keys with a pair of
iterators.

An index is determined by the relation `Holds` between keys and identifiers
as soon as it has no empty bucket; this is the extensionality principle
`Buckets.ext_holds`.
-/

/-- An ordered map from keys to ordered sets of identifiers. -/
abbrev Buckets (κ ι : Type) [Ord κ] [Ord ι] :=
  Std.ExtTreeMap κ (Std.ExtTreeSet ι)

namespace Buckets

open Std (ExtTreeMap ExtTreeSet TransOrd LawfulEqOrd)

set_option linter.unusedSectionVars false

variable {κ ι : Type} [DecidableEq κ] [Ord κ] [TransOrd κ] [LawfulEqOrd κ]
  [Ord ι] [TransOrd ι] [LawfulEqOrd ι]

/-- The identifiers filed under `k`; empty when the key is absent. -/
def bucket (m : Buckets κ ι) (k : κ) : ExtTreeSet ι :=
  m.getD k ∅

/-- `i` is filed under `k`. -/
def Holds (m : Buckets κ ι) (k : κ) (i : ι) : Prop :=
  i ∈ m.bucket k

/-- No key is present with an empty bucket. -/
def NoEmpty (m : Buckets κ ι) : Prop :=
  ∀ (k : κ) (b : ExtTreeSet ι), m[k]? = some b → b ≠ ∅

/-- File `i` under `k`, creating the bucket when the key is new. -/
def add (m : Buckets κ ι) (k : κ) (i : ι) : Buckets κ ι :=
  m.alter k fun b => some ((b.getD ∅).insert i)

/-- Drop a bucket that has become empty. -/
def keepNonempty (b : ExtTreeSet ι) : Option (ExtTreeSet ι) :=
  if b.isEmpty then none else some b

/-- Withdraw `i` from the bucket of `k`, dropping the bucket once empty. -/
def remove (m : Buckets κ ι) (k : κ) (i : ι) : Buckets κ ι :=
  m.alter k fun b => b.bind fun b => keepNonempty (b.erase i)

/-- Withdraw `i` from every bucket, then drop the buckets left empty. -/
def removeEverywhere (m : Buckets κ ι) (i : ι) : Buckets κ ι :=
  (m.map fun _ b => b.erase i).filter fun _ b => !b.isEmpty

theorem holds_iff {m : Buckets κ ι} {k : κ} {i : ι} :
    m.Holds k i ↔ ∃ b, m[k]? = some b ∧ i ∈ b := by
  rw [Holds, bucket, ExtTreeMap.getD_eq_getD_getElem?]
  cases m[k]? with
  | none => simp
  | some b => simp

theorem not_holds_empty {k : κ} {i : ι} :
    ¬ Holds (∅ : Buckets κ ι) k i := by
  simp [holds_iff]

theorem noEmpty_empty : NoEmpty (∅ : Buckets κ ι) := by
  intro k b hb
  simp at hb

/-- A nonempty bucket has a member, so a present key holds something. -/
theorem NoEmpty.exists_holds {m : Buckets κ ι} (hm : m.NoEmpty)
    {k : κ} {b : ExtTreeSet ι} (hb : m[k]? = some b) :
    ∃ i, m.Holds k i := by
  by_contra hnone
  push Not at hnone
  apply hm k b hb
  apply ExtTreeSet.ext_mem
  intro i
  constructor
  · intro hi
    exact (hnone i (holds_iff.mpr ⟨b, hb, hi⟩)).elim
  · intro hi
    simp at hi

/-! ## Filing and withdrawing -/

theorem getElem?_add (m : Buckets κ ι) (k k' : κ) (i : ι) :
    (m.add k i)[k']? =
      if k = k' then some ((m.bucket k).insert i) else m[k']? := by
  rw [add, ExtTreeMap.getElem?_alter, bucket,
    ExtTreeMap.getD_eq_getD_getElem?]
  simp

@[simp] theorem holds_add {m : Buckets κ ι} {k k' : κ} {i i' : ι} :
    (m.add k i).Holds k' i' ↔ (k = k' ∧ i = i') ∨ m.Holds k' i' := by
  rw [holds_iff, getElem?_add]
  by_cases hk : k = k'
  · subst k'
    simp [Holds, ExtTreeSet.mem_insert]
  · simp [hk, holds_iff]

theorem NoEmpty.add {m : Buckets κ ι} (hm : m.NoEmpty) (k : κ) (i : ι) :
    (m.add k i).NoEmpty := by
  intro k' b hb
  rw [getElem?_add] at hb
  split at hb
  · cases hb
    exact ExtTreeSet.insert_ne_empty
  · exact hm k' b hb

theorem keepNonempty_eq_some {b b' : ExtTreeSet ι} :
    keepNonempty b = some b' ↔ b = b' ∧ b ≠ ∅ := by
  by_cases hb : b = ∅
  · simp [keepNonempty, hb]
  · simp [keepNonempty, hb]

theorem getElem?_remove (m : Buckets κ ι) (k k' : κ) (i : ι) :
    (m.remove k i)[k']? =
      if k = k' then m[k']?.bind fun b => keepNonempty (b.erase i)
      else m[k']? := by
  rw [remove, ExtTreeMap.getElem?_alter]
  by_cases hk : k = k'
  · subst k'
    simp
  · simp [hk]

theorem ne_empty_of_mem {b : ExtTreeSet ι} {i : ι} (hi : i ∈ b) : b ≠ ∅ := by
  rintro rfl
  simp at hi

@[simp] theorem holds_remove {m : Buckets κ ι} {k k' : κ} {i i' : ι} :
    (m.remove k i).Holds k' i' ↔
      m.Holds k' i' ∧ ¬ (k = k' ∧ i = i') := by
  rw [holds_iff, getElem?_remove]
  by_cases hk : k = k'
  · subst k'
    rw [if_pos rfl, holds_iff]
    constructor
    · rintro ⟨b, hb, hi⟩
      obtain ⟨old, hold, hkeep⟩ := Option.bind_eq_some_iff.mp hb
      obtain ⟨rfl, -⟩ := keepNonempty_eq_some.mp hkeep
      rw [ExtTreeSet.mem_erase] at hi
      exact ⟨⟨old, hold, hi.2⟩, by simpa [Std.compare_eq_iff_eq] using hi.1⟩
    · rintro ⟨⟨old, hold, hi⟩, hne⟩
      have hmem : i' ∈ old.erase i := by
        rw [ExtTreeSet.mem_erase]
        exact ⟨by simpa [Std.compare_eq_iff_eq] using hne, hi⟩
      exact ⟨old.erase i, by
        simp [hold, keepNonempty_eq_some, ne_empty_of_mem hmem], hmem⟩
  · simp [hk, holds_iff]

theorem NoEmpty.remove {m : Buckets κ ι} (hm : m.NoEmpty) (k : κ) (i : ι) :
    (m.remove k i).NoEmpty := by
  intro k' b hb
  rw [getElem?_remove] at hb
  split at hb
  · obtain ⟨old, -, hkeep⟩ := Option.bind_eq_some_iff.mp hb
    obtain ⟨rfl, hne⟩ := keepNonempty_eq_some.mp hkeep
    exact hne
  · exact hm k' b hb

theorem getElem?_removeEverywhere (m : Buckets κ ι) (k : κ) (i : ι) :
    (m.removeEverywhere i)[k]? =
      m[k]?.bind fun b => keepNonempty (b.erase i) := by
  rw [removeEverywhere, ExtTreeMap.getElem?_filter', ExtTreeMap.getElem?_map]
  cases m[k]? with
  | none => rfl
  | some b =>
      by_cases hb : (b.erase i).isEmpty = true
      · rw [Option.bind_some, keepNonempty, if_pos hb]
        simp only [Option.map_some, Option.filter, hb]
        rfl
      · rw [Option.bind_some, keepNonempty, if_neg hb]
        simp only [Option.map_some, Option.filter, hb]
        rfl

@[simp] theorem holds_removeEverywhere
    {m : Buckets κ ι} {k : κ} {i i' : ι} :
    (m.removeEverywhere i).Holds k i' ↔ m.Holds k i' ∧ i ≠ i' := by
  have hsame : (m.removeEverywhere i).Holds k i' ↔
      (m.remove k i).Holds k i' := by
    rw [holds_iff, holds_iff, getElem?_removeEverywhere, getElem?_remove,
      if_pos rfl]
  simp [hsame]

/-- Sweeping drops every bucket it empties, whatever the index held before. -/
theorem noEmpty_removeEverywhere (m : Buckets κ ι) (i : ι) :
    (m.removeEverywhere i).NoEmpty := by
  intro k b hb
  rw [getElem?_removeEverywhere] at hb
  obtain ⟨old, -, hkeep⟩ := Option.bind_eq_some_iff.mp hb
  obtain ⟨rfl, hne⟩ := keepNonempty_eq_some.mp hkeep
  exact hne

/-! ## Extensionality -/

theorem bucket_eq_of_getElem? {m : Buckets κ ι} {k : κ}
    {b : ExtTreeSet ι} (hb : m[k]? = some b) : m.bucket k = b := by
  rw [bucket, ExtTreeMap.getD_eq_getD_getElem?, hb]
  rfl

/-- Two indices without empty buckets are equal when they file the same
identifiers under the same keys. -/
theorem ext_holds {m m' : Buckets κ ι}
    (hm : m.NoEmpty) (hm' : m'.NoEmpty)
    (h : ∀ k i, m.Holds k i ↔ m'.Holds k i) : m = m' := by
  have hbucket : ∀ k, m.bucket k = m'.bucket k := fun k =>
    ExtTreeSet.ext_mem fun i => h k i
  apply ExtTreeMap.ext_getElem?
  intro k
  cases hk : m[k]? with
  | none =>
      cases hk' : m'[k]? with
      | none => rfl
      | some b' =>
          obtain ⟨i, hi⟩ := hm'.exists_holds hk'
          obtain ⟨b, hb, -⟩ := holds_iff.mp ((h k i).mpr hi)
          simp [hk] at hb
  | some b =>
      cases hk' : m'[k]? with
      | none =>
          obtain ⟨i, hi⟩ := hm.exists_holds hk
          obtain ⟨b', hb', -⟩ := holds_iff.mp ((h k i).mp hi)
          simp [hk'] at hb'
      | some b' =>
          rw [← bucket_eq_of_getElem? hk, ← bucket_eq_of_getElem? hk',
            hbucket k]

/-! ## Collecting a range of keys

The two iterators are positions in the key order.  The loop compares them for
equality only, so it runs past the last entry, where no value is defined, when
it starts beyond its stopping point.
-/

/-- Position of the first key that is not below `lo`. -/
def lowerBound (m : Buckets κ ι) (lo : κ) : ℕ :=
  (m.toList.takeWhile fun e => (compare e.1 lo).isLT).length

/-- Position of the first key above `hi`. -/
def upperBound (m : Buckets κ ι) (hi : κ) : ℕ :=
  (m.toList.takeWhile fun e => (compare e.1 hi).isLE).length

/-- Walk from position `pos`, with `entries` still ahead, to position `stop`,
adding every bucket met to `acc`; `none` when the walk leaves the map. -/
def collectFrom :
    List (κ × ExtTreeSet ι) → ℕ → ℕ → ExtTreeSet ι → Option (ExtTreeSet ι)
  | entries, pos, stop, acc =>
      if pos = stop then some acc
      else
        match entries with
        | [] => none
        | e :: rest => collectFrom rest (pos + 1) stop (acc ∪ e.2)

@[simp] theorem collectFrom_self (entries : List (κ × ExtTreeSet ι))
    (pos : ℕ) (acc : ExtTreeSet ι) :
    collectFrom entries pos pos acc = some acc := by
  cases entries <;> simp [collectFrom]

/-- The identifiers met between the two iterators. -/
def collectRange (m : Buckets κ ι) (lo hi : κ) : Option (ExtTreeSet ι) :=
  collectFrom (m.toList.drop (m.lowerBound lo))
    (m.lowerBound lo) (m.upperBound hi) ∅

/-- A walk that does not start beyond its stopping point ends there. -/
theorem collectFrom_eq_some (entries : List (κ × ExtTreeSet ι))
    (pos stop : ℕ) (acc : ExtTreeSet ι)
    (hle : pos ≤ stop) (hlen : stop ≤ pos + entries.length) :
    ∃ ids, collectFrom entries pos stop acc = some ids ∧
      ∀ i, i ∈ ids ↔
        i ∈ acc ∨ ∃ e ∈ entries.take (stop - pos), i ∈ e.2 := by
  induction entries generalizing pos acc with
  | nil =>
      have hpos : pos = stop := by simpa using le_antisymm hle hlen
      exact ⟨acc, by simp [collectFrom, hpos], by simp⟩
  | cons e rest ih =>
      by_cases hpos : pos = stop
      · exact ⟨acc, by simp [collectFrom, hpos], by simp [hpos]⟩
      · have hlt : pos < stop := lt_of_le_of_ne hle hpos
        have hrest : stop ≤ pos + 1 + rest.length := by
          simp only [List.length_cons] at hlen
          omega
        obtain ⟨ids, hids, hmem⟩ := ih (pos + 1) (acc ∪ e.2) hlt hrest
        have htake : (e :: rest).take (stop - pos) =
            e :: rest.take (stop - (pos + 1)) := by
          rw [show stop - pos = stop - (pos + 1) + 1 by omega,
            List.take_succ_cons]
        refine ⟨ids, by rw [collectFrom, if_neg hpos, hids], ?_⟩
        intro i
        rw [hmem, htake, ExtTreeSet.mem_union_iff]
        simp [or_assoc]

/-- A walk that starts beyond its stopping point leaves the map. -/
theorem collectFrom_eq_none (entries : List (κ × ExtTreeSet ι))
    (pos stop : ℕ) (acc : ExtTreeSet ι) (hlt : stop < pos) :
    collectFrom entries pos stop acc = none := by
  induction entries generalizing pos acc with
  | nil => simp [collectFrom, hlt.ne']
  | cons e rest ih =>
      rw [collectFrom, if_neg hlt.ne']
      exact ih (pos + 1) _ (Nat.lt_succ_of_lt hlt)

/-- Along a sorted list, a test that never becomes true again selects a
leading part of it. -/
theorem takeWhile_eq_filter {α : Type} {r : α → α → Prop} {p : α → Bool}
    (hp : ∀ a b, r a b → p b = true → p a = true) :
    ∀ {l : List α}, l.Pairwise r → l.takeWhile p = l.filter p
  | [], _ => rfl
  | a :: l, h => by
      rw [List.pairwise_cons] at h
      by_cases ha : p a = true
      · simp [ha, takeWhile_eq_filter hp h.2]
      · have hnone : ∀ b ∈ l, ¬ p b = true := fun b hb hpb =>
          ha (hp a b (h.1 b hb) hpb)
        rw [List.takeWhile_cons_of_neg ha, List.filter_cons_of_neg ha,
          List.filter_eq_nil_iff.mpr hnone]

/-- Dually, the rest of the list is where the test fails. -/
theorem dropWhile_eq_filter {α : Type} {r : α → α → Prop} {p : α → Bool}
    (hp : ∀ a b, r a b → p b = true → p a = true)
    {l : List α} (hl : l.Pairwise r) :
    l.dropWhile p = l.filter fun a => !p a := by
  induction l with
  | nil => rfl
  | cons a l ih =>
      rw [List.pairwise_cons] at hl
      by_cases ha : p a = true
      · simp [ha, ih hl.2]
      · have hall : ∀ b ∈ l, p b = false := fun b hb =>
          Bool.eq_false_of_not_eq_true fun hpb => ha (hp a b (hl.1 b hb) hpb)
        rw [List.dropWhile_cons_of_neg ha, eq_comm, List.filter_eq_self]
        intro b hb
        rcases List.mem_cons.mp hb with rfl | hb
        · simpa using ha
        · simp [hall b hb]

/-- What lies between the ends of two leading parts, the first inside the
second. -/
theorem mem_take_drop_takeWhile {α : Type} {r : α → α → Prop}
    {p q : α → Bool}
    (hp : ∀ a b, r a b → p b = true → p a = true)
    (hq : ∀ a b, r a b → q b = true → q a = true)
    (hpq : ∀ a, p a = true → q a = true)
    {l : List α} (hl : l.Pairwise r) {a : α} :
    a ∈ (l.drop (l.takeWhile p).length).take
        ((l.takeWhile q).length - (l.takeWhile p).length) ↔
      a ∈ l ∧ q a = true ∧ p a = false := by
  have hinner : (l.takeWhile q).takeWhile p = l.takeWhile p := by
    rw [List.takeWhile_takeWhile]
    congr 1
    funext b
    by_cases hb : p b = true
    · simp [hb, hpq b hb]
    · simp [hb]
  have hslice : (l.drop (l.takeWhile p).length).take
        ((l.takeWhile q).length - (l.takeWhile p).length) =
      (l.takeWhile q).dropWhile p := by
    have hsplit : l.takeWhile p ++ (l.takeWhile q).dropWhile p =
        l.takeWhile q := by
      rw [← hinner, List.takeWhile_append_dropWhile]
    rw [← List.drop_take,
      ← (List.prefix_iff_eq_take.mp (List.takeWhile_prefix q)), ← hsplit,
      List.drop_left, hsplit]
  rw [hslice, dropWhile_eq_filter hp (hl.sublist (List.takeWhile_sublist q)),
    takeWhile_eq_filter hq hl]
  simp [List.mem_filter, and_assoc, and_comm]

theorem pairwise_toList (m : Buckets κ ι) :
    m.toList.Pairwise fun a b => compare a.1 b.1 = .lt :=
  ExtTreeMap.ordered_keys_toList

theorem below_of_compare_lt {lo : κ} (a b : κ × ExtTreeSet ι)
    (hab : compare a.1 b.1 = .lt) (hb : (compare b.1 lo).isLT = true) :
    (compare a.1 lo).isLT = true := by
  rw [Ordering.isLT_iff_eq_lt] at hb ⊢
  exact Std.TransCmp.lt_trans hab hb

theorem upTo_of_compare_lt {hi : κ} (a b : κ × ExtTreeSet ι)
    (hab : compare a.1 b.1 = .lt) (hb : (compare b.1 hi).isLE = true) :
    (compare a.1 hi).isLE = true :=
  Std.TransCmp.isLE_trans (Ordering.isLE_of_eq_lt hab) hb

theorem isLE_of_below {lo hi k : κ} (hle : (compare lo hi).isLE = true)
    (hk : (compare k lo).isLT = true) : (compare k hi).isLE = true := by
  rw [Ordering.isLT_iff_eq_lt] at hk
  exact Std.TransCmp.isLE_trans (Ordering.isLE_of_eq_lt hk) hle

theorem isLT_eq_false_iff {lo k : κ} :
    (compare k lo).isLT = false ↔ (compare lo k).isLE = true := by
  rw [← Std.OrientedCmp.isGE_iff_isLE]
  cases compare k lo <;> simp

theorem holds_iff_toList {m : Buckets κ ι} {k : κ} {i : ι} :
    m.Holds k i ↔ ∃ b, (k, b) ∈ m.toList ∧ i ∈ b := by
  simp [holds_iff, ExtTreeMap.mem_toList_iff_getElem?_eq_some]

/-- Between bounds in the right order the walk is defined, and it collects
exactly the identifiers filed under a key of the range. -/
theorem collectRange_eq_some (m : Buckets κ ι) {lo hi : κ}
    (hle : (compare lo hi).isLE = true) :
    ∃ ids, m.collectRange lo hi = some ids ∧
      ∀ i, i ∈ ids ↔
        ∃ k, (compare lo k).isLE = true ∧ (compare k hi).isLE = true ∧
          m.Holds k i := by
  have hsub : m.lowerBound lo ≤ m.upperBound hi := by
    rw [lowerBound, upperBound,
      takeWhile_eq_filter below_of_compare_lt m.pairwise_toList,
      takeWhile_eq_filter upTo_of_compare_lt m.pairwise_toList]
    apply List.Sublist.length_le
    exact List.monotone_filter_right _ fun e he => isLE_of_below hle he
  have hlen : m.upperBound hi ≤
      m.lowerBound lo + (m.toList.drop (m.lowerBound lo)).length := by
    have hupper : m.upperBound hi ≤ m.toList.length :=
      (List.takeWhile_sublist _).length_le
    rw [List.length_drop]
    omega
  obtain ⟨ids, hids, hmem⟩ :=
    collectFrom_eq_some _ _ _ (∅ : ExtTreeSet ι) hsub hlen
  refine ⟨ids, hids, ?_⟩
  intro i
  rw [hmem]
  simp only [lowerBound, upperBound,
    mem_take_drop_takeWhile below_of_compare_lt upTo_of_compare_lt
      (fun e he => isLE_of_below hle he) m.pairwise_toList]
  constructor
  · rintro (hi' | ⟨e, ⟨he, hhi, hlo⟩, hie⟩)
    · simp at hi'
    · exact ⟨e.1, isLT_eq_false_iff.mp hlo, hhi,
        holds_iff_toList.mpr ⟨e.2, he, hie⟩⟩
  · rintro ⟨k, hlo, hhi, hk⟩
    obtain ⟨b, hb, hib⟩ := holds_iff_toList.mp hk
    exact Or.inr ⟨(k, b), ⟨hb, hhi, isLT_eq_false_iff.mpr hlo⟩, hib⟩

/-- What is within a bound is below every greater one. -/
theorem filter_upTo_sublist {lo hi : κ} (entries : List (κ × ExtTreeSet ι))
    (hwrong : compare hi lo = .lt) :
    (entries.filter fun e => (compare e.1 hi).isLE).Sublist
      (entries.filter fun e => (compare e.1 lo).isLT) := by
  apply List.monotone_filter_right
  intro e he
  rw [Ordering.isLT_iff_eq_lt]
  exact Std.TransCmp.lt_of_isLE_of_lt he hwrong

/-- The scan does not start beyond its stopping point exactly when every key
below the first bound is within the second. -/
theorem lowerBound_le_upperBound_iff {m : Buckets κ ι} {lo hi : κ} :
    m.lowerBound lo ≤ m.upperBound hi ↔
      ∀ k ∈ m, compare k lo = .lt → (compare k hi).isLE = true := by
  rw [lowerBound, upperBound,
    takeWhile_eq_filter below_of_compare_lt m.pairwise_toList,
    takeWhile_eq_filter upTo_of_compare_lt m.pairwise_toList]
  constructor
  · intro hlen k hk hbelow
    obtain ⟨b, hb⟩ := Option.isSome_iff_exists.mp
      (ExtTreeMap.mem_iff_isSome_getElem?.mp hk)
    have hmem : (k, b) ∈ m.toList :=
      ExtTreeMap.mem_toList_iff_getElem?_eq_some.mpr hb
    by_contra hup
    -- Then the bounds are in the wrong order, so what is within the second is
    -- below the first, and equally many keys are.
    have hwrong : compare hi lo = .lt := by
      have habove : compare hi k = .lt := by
        rw [← Std.OrientedCmp.gt_iff_lt]
        cases hcmp : compare k hi <;> simp_all
      exact Std.TransCmp.lt_trans habove hbelow
    have heq := (filter_upTo_sublist m.toList hwrong).eq_of_length_le hlen
    have hin : (k, b) ∈ m.toList.filter (fun e => (compare e.1 lo).isLT) := by
      simp [hmem, hbelow]
    rw [← heq] at hin
    exact hup (by simpa [hmem] using hin)
  · intro hall
    rw [← List.countP_eq_length_filter, ← List.countP_eq_length_filter]
    apply List.countP_mono_left
    intro e he hbelow
    rw [Ordering.isLT_iff_eq_lt] at hbelow
    have hmem : m[e.1]? = some e.2 :=
      ExtTreeMap.mem_toList_iff_getElem?_eq_some.mp he
    refine hall e.1 ?_ hbelow
    rw [ExtTreeMap.mem_iff_isSome_getElem?, hmem]
    rfl

/-- A scan runs past the end exactly when some key lies strictly between
bounds given in the wrong order. -/
theorem collectRange_eq_none_iff {m : Buckets κ ι} {lo hi : κ} :
    m.collectRange lo hi = none ↔
      ∃ k ∈ m, compare k lo = .lt ∧ ¬ (compare k hi).isLE = true := by
  by_cases hle : m.lowerBound lo ≤ m.upperBound hi
  · have hlen : m.upperBound hi ≤
        m.lowerBound lo + (m.toList.drop (m.lowerBound lo)).length := by
      have hupper : m.upperBound hi ≤ m.toList.length :=
        (List.takeWhile_sublist _).length_le
      rw [List.length_drop]
      omega
    obtain ⟨ids, hids, -⟩ :=
      collectFrom_eq_some _ _ _ (∅ : ExtTreeSet ι) hle hlen
    have hall := lowerBound_le_upperBound_iff.mp hle
    rw [collectRange, hids]
    simp only [reduceCtorEq, false_iff]
    rintro ⟨k, hk, hbelow, hup⟩
    exact hup (hall k hk hbelow)
  · have hnone := collectFrom_eq_none (m.toList.drop (m.lowerBound lo)) _ _
      (∅ : ExtTreeSet ι) (Nat.lt_of_not_le hle)
    rw [lowerBound_le_upperBound_iff] at hle
    push Not at hle
    simp only [collectRange, hnone, true_iff]
    obtain ⟨k, hk, hbelow, hup⟩ := hle
    exact ⟨k, hk, hbelow, by simpa using hup⟩

/-- Between bounds in the wrong order a scan that is defined meets nothing. -/
theorem collectRange_eq_empty {m : Buckets κ ι} {lo hi : κ}
    {ids : ExtTreeSet ι} (hwrong : compare hi lo = .lt)
    (h : m.collectRange lo hi = some ids) : ids = ∅ := by
  have hle : m.lowerBound lo ≤ m.upperBound hi := by
    rw [lowerBound_le_upperBound_iff]
    intro k hk hbelow
    by_contra hup
    rw [collectRange_eq_none_iff.mpr ⟨k, hk, hbelow, hup⟩] at h
    cases h
  have hge : m.upperBound hi ≤ m.lowerBound lo := by
    rw [lowerBound, upperBound,
      takeWhile_eq_filter below_of_compare_lt m.pairwise_toList,
      takeWhile_eq_filter upTo_of_compare_lt m.pairwise_toList]
    exact (filter_upTo_sublist m.toList hwrong).length_le
  rw [collectRange, le_antisymm hge hle, collectFrom_self] at h
  exact (Option.some.inj h).symm

/-- A scan ends, and collects exactly what is filed within its bounds, when no
key lies strictly between bounds given in the wrong order. -/
theorem collectRange_collects_iff {m : Buckets κ ι} {lo hi : κ} :
    (∃ ids, m.collectRange lo hi = some ids ∧
        ∀ i, i ∈ ids ↔
          ∃ k, (compare lo k).isLE = true ∧ (compare k hi).isLE = true ∧
            m.Holds k i) ↔
      ∀ k ∈ m, compare k lo = .lt → (compare k hi).isLE = true := by
  constructor
  · rintro ⟨ids, hids, -⟩ k hk hbelow
    by_contra hup
    rw [collectRange_eq_none_iff.mpr ⟨k, hk, hbelow, hup⟩] at hids
    cases hids
  · intro hall
    by_cases hle : (compare lo hi).isLE = true
    · exact m.collectRange_eq_some hle
    · have hwrong : compare hi lo = .lt := by
        rw [← Std.OrientedCmp.gt_iff_lt]
        cases hcmp : compare lo hi <;> simp_all
      cases hids : m.collectRange lo hi with
      | none =>
          obtain ⟨k, hk, hbelow, hup⟩ := collectRange_eq_none_iff.mp hids
          exact (hup (hall k hk hbelow)).elim
      | some ids =>
          refine ⟨ids, rfl, ?_⟩
          obtain rfl := collectRange_eq_empty hwrong hids
          intro i
          simp only [ExtTreeSet.not_mem_empty, false_iff]
          rintro ⟨k, hlo, hhi, -⟩
          exact hle (Std.TransCmp.isLE_trans hlo hhi)

theorem mem_collectFrom (entries : List (κ × ExtTreeSet ι)) (pos stop : ℕ)
    (acc : ExtTreeSet ι) {ids : ExtTreeSet ι} {i : ι}
    (h : collectFrom entries pos stop acc = some ids) (hi : i ∈ ids) :
    i ∈ acc ∨ ∃ e ∈ entries, i ∈ e.2 := by
  induction entries generalizing pos acc with
  | nil =>
      rw [collectFrom] at h
      split at h
      · obtain rfl := Option.some.inj h
        exact Or.inl hi
      · cases h
  | cons e rest ih =>
      rw [collectFrom] at h
      split at h
      · obtain rfl := Option.some.inj h
        exact Or.inl hi
      · rcases ih (pos + 1) (acc ∪ e.2) h with hmem | ⟨e', he', hmem⟩
        · rcases ExtTreeSet.mem_union_iff.mp hmem with hacc | hbucket
          · exact Or.inl hacc
          · exact Or.inr ⟨e, List.mem_cons_self, hbucket⟩
        · exact Or.inr ⟨e', List.mem_cons_of_mem _ he', hmem⟩

/-- Whatever the bounds, a walk collects only identifiers that are filed. -/
theorem holds_of_mem_collectRange {m : Buckets κ ι} {lo hi : κ}
    {ids : ExtTreeSet ι} {i : ι} (h : m.collectRange lo hi = some ids)
    (hi : i ∈ ids) : ∃ k, m.Holds k i := by
  rcases mem_collectFrom _ _ _ _ h hi with hmem | ⟨e, he, hmem⟩
  · simp at hmem
  · exact ⟨e.1, holds_iff_toList.mpr ⟨e.2, List.mem_of_mem_drop he, hmem⟩⟩

end Buckets
