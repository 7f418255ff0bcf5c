import Mathlib

/-!
# Document collections

A collection is a list of documents in the order the store keeps them.  The
operations are those of a document store addressed by a key: find the first
document with a key, update it in place, or remove it.
Keys need not be unique; when they are, the first match is the only one.
-/

namespace Collection

variable {δ κ : Type} [DecidableEq κ]

/-- The first document with key `k`. -/
def findOne (key : δ → κ) (k : κ) (docs : List δ) : Option δ :=
  docs.find? fun d => key d = k

/-- Apply `f` to the first document with key `k`. -/
def updateOne (key : δ → κ) (k : κ) (f : δ → δ) : List δ → List δ
  | [] => []
  | d :: docs => if key d = k then f d :: docs else d :: updateOne key k f docs

/-- Remove the first document with key `k`. -/
def deleteOne (key : δ → κ) (k : κ) (docs : List δ) : List δ :=
  docs.eraseP fun d => key d = k

/-- The update matches a document and leaves it different. -/
def modifiesOne [DecidableEq δ] (key : δ → κ) (k : κ) (f : δ → δ)
    (docs : List δ) : Bool :=
  match findOne key k docs with
  | none => false
  | some d => decide (f d ≠ d)

variable {key : δ → κ} {k k' : κ} {f : δ → δ} {docs : List δ} {d : δ}

@[simp] theorem findOne_nil : findOne key k [] = none := rfl

theorem findOne_cons (d : δ) (docs : List δ) :
    findOne key k (d :: docs) =
      if key d = k then some d else findOne key k docs := by
  by_cases h : key d = k
  · simp [findOne, h]
  · simp [findOne, h]

@[simp] theorem updateOne_nil : updateOne key k f [] = [] := rfl

theorem updateOne_cons (d : δ) (docs : List δ) :
    updateOne key k f (d :: docs) =
      if key d = k then f d :: docs else d :: updateOne key k f docs := rfl

theorem mem_of_findOne (h : findOne key k docs = some d) : d ∈ docs :=
  List.mem_of_find?_eq_some h

theorem key_of_findOne (h : findOne key k docs = some d) : key d = k := by
  simpa using List.find?_some h

theorem findOne_eq_none_iff :
    findOne key k docs = none ↔ ∀ d ∈ docs, key d ≠ k := by
  simp [findOne]

theorem exists_findOne_of_mem (hd : d ∈ docs) :
    ∃ d', findOne key (key d) docs = some d' := by
  cases h : findOne key (key d) docs with
  | none => exact (findOne_eq_none_iff.mp h d hd rfl).elim
  | some d' => exact ⟨d', rfl⟩

/-- With distinct keys, finding a document is being a member with that key. -/
theorem findOne_eq_some_iff (hnodup : (docs.map key).Nodup) :
    findOne key k docs = some d ↔ d ∈ docs ∧ key d = k := by
  constructor
  · intro h
    exact ⟨mem_of_findOne h, key_of_findOne h⟩
  · rintro ⟨hd, rfl⟩
    obtain ⟨d', hd'⟩ : ∃ d', findOne key (key d) docs = some d' :=
      exists_findOne_of_mem hd
    have heq : d' = d :=
      List.inj_on_of_nodup_map hnodup (mem_of_findOne hd') hd
        (key_of_findOne hd')
    rw [hd', heq]

theorem findOne_append (docs docs' : List δ) :
    findOne key k (docs ++ docs') =
      (findOne key k docs).or (findOne key k docs') := by
  simp [findOne, List.find?_append]

omit [DecidableEq κ] in
theorem nodup_append_singleton (hnodup : (docs.map key).Nodup)
    (hfresh : ∀ d' ∈ docs, key d' ≠ key d) :
    ((docs ++ [d]).map key).Nodup := by
  rw [List.map_append, List.nodup_append]
  refine ⟨hnodup, by simp, ?_⟩
  intro a ha b hb
  obtain ⟨d', hd', rfl⟩ := List.mem_map.mp ha
  simp only [List.map_cons, List.map_nil, List.mem_singleton] at hb
  subst hb
  exact hfresh d' hd'

/-! ## Removing -/

theorem findOne_deleteOne_of_ne (hne : k ≠ k') :
    findOne key k' (deleteOne key k docs) = findOne key k' docs := by
  induction docs with
  | nil => rfl
  | cons d docs ih =>
      rw [deleteOne] at ih ⊢
      by_cases hd : key d = k
      · rw [List.eraseP_cons_of_pos (by simp [hd]), findOne_cons,
          if_neg (fun hd' => hne (hd.symm.trans hd'))]
      · rw [List.eraseP_cons_of_neg (by simp [hd]), findOne_cons, findOne_cons, ih]

/-! ## Updating in place -/

theorem findOne_updateOne (hf : ∀ d, key d = k → key (f d) = k) :
    findOne key k' (updateOne key k f docs) =
      if k = k' then (findOne key k docs).map f else findOne key k' docs := by
  induction docs with
  | nil => simp
  | cons d docs ih =>
      by_cases hd : key d = k
      · rw [updateOne_cons, if_pos hd, findOne_cons, hf d hd, findOne_cons,
          findOne_cons, if_pos hd]
        by_cases hk : k = k'
        · simp [hk]
        · simp [hk, hd]
      · rw [updateOne_cons, if_neg hd, findOne_cons, ih, findOne_cons, findOne_cons,
          if_neg hd]
        by_cases hk : k = k'
        · simp [hk, hk ▸ hd]
        · simp [hk]

/-- Two keys that single out the same documents give the same update. -/
theorem updateOne_congr {κ' : Type} [DecidableEq κ'] {key' : δ → κ'} {l : κ'}
    (h : ∀ d, key d = k ↔ key' d = l) :
    updateOne key k f docs = updateOne key' l f docs := by
  induction docs with
  | nil => rfl
  | cons d docs ih =>
      by_cases hd : key d = k
      · rw [updateOne_cons, updateOne_cons, if_pos hd, if_pos ((h d).mp hd)]
      · rw [updateOne_cons, updateOne_cons, if_neg hd,
          if_neg fun hd' => hd ((h d).mpr hd'), ih]

theorem mem_updateOne (h : d ∈ updateOne key k f docs) :
    d ∈ docs ∨ ∃ d₀, findOne key k docs = some d₀ ∧ d = f d₀ := by
  induction docs with
  | nil => simp at h
  | cons d₁ docs ih =>
      by_cases hd : key d₁ = k
      · rw [updateOne_cons, if_pos hd] at h
        rcases List.mem_cons.mp h with rfl | h
        · exact Or.inr ⟨d₁, by simp [findOne_cons, hd], rfl⟩
        · exact Or.inl (List.mem_cons_of_mem _ h)
      · rw [updateOne_cons, if_neg hd] at h
        rw [findOne_cons, if_neg hd]
        rcases List.mem_cons.mp h with rfl | h
        · exact Or.inl List.mem_cons_self
        · exact (ih h).imp_left (List.mem_cons_of_mem _)

/-- An update that keeps the key it searches for keeps every key. -/
theorem keys_updateOne (hf : ∀ d, key d = k → key (f d) = k) :
    (updateOne key k f docs).map key = docs.map key := by
  induction docs with
  | nil => rfl
  | cons d docs ih =>
      by_cases hd : key d = k
      · simp [updateOne_cons, hd, hf d hd]
      · simp [updateOne_cons, hd, ih]

/-- With distinct keys, an update replaces the one document with the key. -/
theorem mem_updateOne_iff (hnodup : (docs.map key).Nodup) :
    d ∈ updateOne key k f docs ↔
      (d ∈ docs ∧ key d ≠ k) ∨ ∃ d₀ ∈ docs, key d₀ = k ∧ d = f d₀ := by
  induction docs with
  | nil => simp
  | cons d₁ docs ih =>
      rw [List.map_cons, List.nodup_cons] at hnodup
      by_cases hd₁ : key d₁ = k
      · have hrest : ∀ d' ∈ docs, key d' ≠ k := by
          intro d' hd' hk
          apply hnodup.1
          rw [hd₁, ← hk]
          exact List.mem_map_of_mem hd'
        rw [updateOne_cons, if_pos hd₁, List.mem_cons]
        constructor
        · rintro (rfl | hd)
          · exact Or.inr ⟨d₁, List.mem_cons_self, hd₁, rfl⟩
          · exact Or.inl ⟨List.mem_cons_of_mem _ hd, hrest d hd⟩
        · rintro (⟨hd, hk⟩ | ⟨d₀, hd₀, hk, rfl⟩)
          · rcases List.mem_cons.mp hd with rfl | hd
            · exact (hk hd₁).elim
            · exact Or.inr hd
          · rcases List.mem_cons.mp hd₀ with rfl | hd₀
            · exact Or.inl rfl
            · exact (hrest d₀ hd₀ hk).elim
      · rw [updateOne_cons, if_neg hd₁, List.mem_cons, ih hnodup.2]
        grind

/-- With distinct keys, an update is a map over the collection. -/
theorem updateOne_eq_map (hnodup : (docs.map key).Nodup) :
    updateOne key k f docs =
      docs.map fun d => if key d = k then f d else d := by
  induction docs with
  | nil => rfl
  | cons d docs ih =>
      rw [List.map_cons, List.nodup_cons] at hnodup
      rw [updateOne_cons, List.map_cons]
      by_cases hd : key d = k
      · have hrest : ∀ d' ∈ docs, (if key d' = k then f d' else d') = id d' := by
          intro d' hd'
          rw [if_neg, id]
          intro hk
          apply hnodup.1
          rw [hd, ← hk]
          exact List.mem_map_of_mem hd'
        rw [if_pos hd, if_pos hd, List.map_congr_left hrest, List.map_id]
      · rw [if_neg hd, if_neg hd, ih hnodup.2]

/-- A total over the collection changes by what the updated document
contributes. -/
theorem sum_updateOne {value : δ → ℤ} (h : findOne key k docs = some d) :
    ((updateOne key k f docs).map value).sum =
      (docs.map value).sum + (value (f d) - value d) := by
  induction docs with
  | nil => simp at h
  | cons d₁ docs ih =>
      rw [findOne_cons] at h
      by_cases hd : key d₁ = k
      · obtain rfl : d₁ = d := by simpa [hd] using h
        simp only [updateOne_cons, if_pos hd, List.map_cons, List.sum_cons]
        ring
      · rw [if_neg hd] at h
        simp only [updateOne_cons, if_neg hd, List.map_cons, List.sum_cons, ih h]
        ring

theorem modifiesOne_eq_true [DecidableEq δ] :
    modifiesOne key k f docs = true ↔
      ∃ d, findOne key k docs = some d ∧ f d ≠ d := by
  rw [modifiesOne]
  cases findOne key k docs with
  | none => simp
  | some d => simp

/-- An update that modifies nothing leaves the collection as it was. -/
theorem updateOne_eq_self_of_modifiesOne_eq_false [DecidableEq δ]
    (h : modifiesOne key k f docs = false) :
    updateOne key k f docs = docs := by
  induction docs with
  | nil => rfl
  | cons d docs ih =>
      by_cases hd : key d = k
      · have hfd : f d = d := by simpa [modifiesOne, findOne_cons, hd] using h
        rw [updateOne_cons, if_pos hd, hfd]
      · rw [modifiesOne, findOne_cons, if_neg hd] at h
        rw [updateOne_cons, if_neg hd, ih h]

/-! ## Collections side by side -/

section SideBySide

variable {S : δ → δ → Prop} {docs' : List δ}

/-- In collections related document by document, a search finds related
documents. -/
theorem findOne_forall₂ (hkey : ∀ d e, S d e → key d = key e)
    (h : List.Forall₂ S docs docs') :
    (findOne key k docs = none ∧ findOne key k docs' = none) ∨
      ∃ d e, findOne key k docs = some d ∧ findOne key k docs' = some e ∧
        S d e := by
  induction h with
  | nil => exact Or.inl ⟨rfl, rfl⟩
  | @cons d e docs docs' hde _ ih =>
      rw [findOne_cons, findOne_cons, ← hkey d e hde]
      by_cases hd : key d = k
      · rw [if_pos hd, if_pos hd]
        exact Or.inr ⟨d, e, rfl, rfl, hde⟩
      · rw [if_neg hd, if_neg hd]
        exact ih

/-- Updates that take related documents to related ones keep the relation. -/
theorem forall₂_updateOne {g : δ → δ} (hkey : ∀ d e, S d e → key d = key e)
    (hfg : ∀ d e, S d e → key d = k → S (f d) (g e))
    (h : List.Forall₂ S docs docs') :
    List.Forall₂ S (updateOne key k f docs) (updateOne key k g docs') := by
  induction h with
  | nil => exact .nil
  | @cons d e docs docs' hde hrest ih =>
      rw [updateOne_cons, updateOne_cons, ← hkey d e hde]
      by_cases hd : key d = k
      · rw [if_pos hd, if_pos hd]
        exact .cons (hfg d e hde hd) hrest
      · rw [if_neg hd, if_neg hd]
        exact .cons hde ih

end SideBySide

end Collection
