import Mathlib.Logic.Function.Basic
import Mathlib.Logic.Relation
import AuctionServer.Support.Collection

/-!
# Registries with a working copy

A registry hands out increasing keys, keeps every entry in memory, and writes
every change of an entry to a collection of records.  A write may be lost, so
the two copies can drift apart; a reload replaces the copy in memory by what
the records say.  An entry starts open and is closed once.

In whatever order writes are lost and the memory is reloaded, a key that is
closed in both copies stays so (`Settled.step`), and an entry that is open in
memory is stored as it is (`Backed.step`).  When no write is lost, the two
copies agree (`Agrees.step`).
-/

namespace Registry

open Relation (ReflTransGen)

/-- How an entry is written to a record and read back. -/
structure Format (κ ν δ : Type) where
  keyOf : ν → κ
  isOpen : ν → Prop
  encode : ν → δ
  decode : δ → ν
  decode_encode : ∀ v, decode (encode v) = v

/-- The entries in memory, the next key, and the stored records. -/
@[ext] structure Book (κ ν δ : Type) where
  entries : κ → Option ν
  next : κ
  records : List δ

variable {κ ν δ : Type}

/-- The key of a record. -/
def Format.key (F : Format κ ν δ) (d : δ) : κ :=
  F.keyOf (F.decode d)

@[simp] theorem Format.key_encode (F : Format κ ν δ) (v : ν) :
    F.key (F.encode v) = F.keyOf v := by
  simp [key, F.decode_encode]

variable [DecidableEq κ] [LT κ]

/-- What can happen to a registry.  Under `synced` no write is lost and a
reload misses no record. -/
inductive Step (F : Format κ ν δ) (synced : Prop) :
    Book κ ν δ → Book κ ν δ → Prop
  | assign {b : Book κ ν δ} {v : ν} {next : κ} {kept applied : Bool}
      (hkey : F.keyOf v = b.next) (hnext : b.next < next)
      (hkept : kept = true → applied = true) (hsynced : synced → kept = true) :
      Step F synced b
        { entries :=
            if kept then Function.update b.entries b.next (some v)
            else b.entries
          next := next
          records :=
            if applied then b.records ++ [F.encode v] else b.records }
  | close {b : Book κ ν δ} {k : κ} {old new : ν} {applied : Bool}
      (hold : b.entries k = some old) (hopen : F.isOpen old)
      (hclosed : ¬ F.isOpen new) (hkey : F.keyOf new = k)
      (hsynced : synced → applied = true) :
      Step F synced b
        { entries := Function.update b.entries k (some new)
          next := b.next
          records :=
            if applied then
              Collection.updateOne F.key k (fun _ => F.encode new) b.records
            else b.records }
  | reload {b : Book κ ν δ} {entries : κ → Option ν} {next : κ}
      (hfrom : ∀ k v, entries k = some v →
        ∃ d ∈ b.records, F.decode d = v ∧ F.key d = k)
      (hnext : ∀ d ∈ b.records, F.key d < next)
      (hsynced : synced → ∀ d ∈ b.records, entries (F.key d) ≠ none) :
      Step F synced b { entries, next, records := b.records }

/-- The next key is above every stored key. -/
def Fresh (F : Format κ ν δ) (b : Book κ ν δ) : Prop :=
  ∀ d ∈ b.records, F.key d < b.next

omit [LT κ] in
/-- Writing a closed entry changes no key. -/
theorem keys_close {F : Format κ ν δ} {k : κ} {new : ν}
    (hkey : F.keyOf new = k) (records : List δ) :
    (Collection.updateOne F.key k (fun _ => F.encode new) records).map F.key =
      records.map F.key := by
  apply Collection.keys_updateOne
  intro d hd
  simpa using hkey

variable [IsTrans κ (· < ·)] [Std.Irrefl fun a b : κ => a < b]
variable {F : Format κ ν δ} {synced : Prop} {b b' : Book κ ν δ}

omit [Std.Irrefl fun a b : κ => a < b] in
theorem Fresh.step (h : Fresh F b) (hstep : Step F synced b b') :
    Fresh F b' := by
  cases hstep with
  | @assign v next kept applied hkey hnext _ _ =>
      have hold : ∀ d ∈ b.records, F.key d < next := fun d hd =>
        Trans.trans (h d hd) hnext
      intro d hd
      cases applied with
      | false => exact hold d hd
      | true =>
          rcases List.mem_append.mp hd with hd | hd
          · exact hold d hd
          · obtain rfl : d = F.encode v := by simpa using hd
            simpa [hkey] using hnext
  | @close k old new applied _ _ _ hkey _ =>
      intro d hd
      cases applied with
      | false => exact h d hd
      | true =>
          have hkeys : F.key d ∈ b.records.map F.key := by
            rw [← keys_close hkey]
            exact List.mem_map_of_mem hd
          obtain ⟨d₀, hd₀, heq⟩ := List.mem_map.mp hkeys
          rw [← heq]
          exact h d₀ hd₀
  | reload _ hnext _ => exact hnext

/-- Entries are kept under their own keys, and the stored keys are distinct
and below the next one. -/
structure Tidy (F : Format κ ν δ) (b : Book κ ν δ) : Prop where
  keyed : ∀ k v, b.entries k = some v → F.keyOf v = k
  distinct : (b.records.map F.key).Nodup
  fresh : Fresh F b

omit [DecidableEq κ] [IsTrans κ (· < ·)] in
theorem Fresh.key_ne (h : Fresh F b) : ∀ d ∈ b.records, F.key d ≠ b.next := by
  intro d hd heq
  have hlt := h d hd
  rw [heq] at hlt
  exact Std.Irrefl.irrefl _ hlt

theorem Tidy.step (h : Tidy F b) (hstep : Step F synced b b') :
    Tidy F b' := by
  have hfresh := h.fresh.step hstep
  cases hstep with
  | @assign v next kept applied hkey hnext _ _ =>
      refine ⟨?_, ?_, hfresh⟩
      · intro k w hw
        cases kept with
        | false => exact h.keyed k w hw
        | true =>
            rcases eq_or_ne k b.next with rfl | hne
            · obtain rfl : v = w := by simpa using hw
              exact hkey
            · exact h.keyed k w (by simpa [Function.update_of_ne hne] using hw)
      · cases applied with
        | false => exact h.distinct
        | true =>
            apply Collection.nodup_append_singleton h.distinct
            intro d hd
            rw [Format.key_encode, hkey]
            exact h.fresh.key_ne d hd
  | @close k old new applied _ _ _ hkey _ =>
      refine ⟨?_, ?_, hfresh⟩
      · intro k' w hw
        rcases eq_or_ne k' k with rfl | hne
        · obtain rfl : new = w := by simpa using hw
          exact hkey
        · exact h.keyed k' w (by simpa [Function.update_of_ne hne] using hw)
      · cases applied with
        | false => exact h.distinct
        | true =>
            have hkeys := h.distinct
            rw [← keys_close hkey] at hkeys
            exact hkeys
  | reload hfrom _ _ =>
      refine ⟨?_, h.distinct, hfresh⟩
      intro k v hv
      obtain ⟨d, -, rfl, hkey⟩ := hfrom k v hv
      exact hkey

/-! ## Closed for good -/

/-- Some record has the key, and neither copy has it open. -/
structure Settled (F : Format κ ν δ) (k : κ) (b : Book κ ν δ) : Prop where
  stored : ∃ d ∈ b.records, F.key d = k
  records : ∀ d ∈ b.records, F.key d = k → ¬ F.isOpen (F.decode d)
  entry : ∀ v, b.entries k = some v → ¬ F.isOpen v

omit [IsTrans κ (· < ·)] in
/-- A key that is closed in both copies stays so, whatever is lost. -/
theorem Settled.step {k : κ} (h : Settled F k b) (htidy : Tidy F b)
    (hstep : Step F synced b b') : Settled F k b' := by
  obtain ⟨d₀, hd₀, hkey₀⟩ := h.stored
  cases hstep with
  | @assign v next kept applied hkey _ _ _ =>
      -- The new key is above all stored ones, so it is not this one.
      have hne : k ≠ b.next := by
        rw [← hkey₀]
        exact htidy.fresh.key_ne d₀ hd₀
      refine ⟨?_, ?_, ?_⟩
      · cases applied with
        | false => exact h.stored
        | true => exact ⟨d₀, List.mem_append_left _ hd₀, hkey₀⟩
      · intro d hd hdk
        cases applied with
        | false => exact h.records d hd hdk
        | true =>
            rcases List.mem_append.mp hd with hd | hd
            · exact h.records d hd hdk
            · obtain rfl : d = F.encode v := by simpa using hd
              rw [Format.key_encode, hkey] at hdk
              exact (hne hdk.symm).elim
      · intro w hw
        cases kept with
        | false => exact h.entry w hw
        | true =>
            exact h.entry w (by simpa [Function.update_of_ne hne] using hw)
  | @close k' old new applied _ _ hclosed hkey _ =>
      refine ⟨?_, ?_, ?_⟩
      · cases applied with
        | false => exact h.stored
        | true =>
            have hkeys : k ∈ b.records.map F.key :=
              hkey₀ ▸ List.mem_map_of_mem hd₀
            rw [← keys_close hkey] at hkeys
            obtain ⟨d, hd, hdk⟩ := List.mem_map.mp hkeys
            exact ⟨d, hd, hdk⟩
      · intro d hd hdk
        cases applied with
        | false => exact h.records d hd hdk
        | true =>
            rcases (Collection.mem_updateOne_iff htidy.distinct).mp hd with
              ⟨hd, -⟩ | ⟨d₁, -, -, rfl⟩
            · exact h.records d hd hdk
            · rw [F.decode_encode]
              exact hclosed
      · intro w hw
        rcases eq_or_ne k k' with rfl | hne
        · obtain rfl : new = w := by simpa using hw
          exact hclosed
        · exact h.entry w (by simpa [Function.update_of_ne hne] using hw)
  | reload hfrom _ _ =>
      refine ⟨h.stored, h.records, ?_⟩
      intro v hv
      obtain ⟨d, hd, rfl, hdk⟩ := hfrom k v hv
      exact h.records d hd hdk

/-! ## Stored entries -/

/-- Every entry has a record, and the record of an open entry says what memory
says. -/
def Backed (F : Format κ ν δ) (b : Book κ ν δ) : Prop :=
  ∀ k v, b.entries k = some v →
    ∃ d ∈ b.records, F.key d = k ∧ (F.isOpen v → F.decode d = v)

omit [IsTrans κ (· < ·)] [Std.Irrefl fun a b : κ => a < b] in
/-- Open entries stay stored, whatever is lost: memory is at most ahead of a
record in having closed its entry. -/
theorem Backed.step (h : Backed F b) (htidy : Tidy F b)
    (hstep : Step F synced b b') : Backed F b' := by
  cases hstep with
  | @assign v next kept applied hkey _ hkept _ =>
      have hold : ∀ d ∈ b.records,
          d ∈ if applied then b.records ++ [F.encode v] else b.records := by
        intro d hd
        cases applied with
        | false => exact hd
        | true => exact List.mem_append_left _ hd
      have hkeeps : ∀ k w, b.entries k = some w →
          ∃ d ∈ if applied then b.records ++ [F.encode v] else b.records,
            F.key d = k ∧ (F.isOpen w → F.decode d = w) := by
        intro k w hw
        obtain ⟨d, hd, hdk⟩ := h k w hw
        exact ⟨d, hold d hd, hdk⟩
      intro k w hw
      cases kept with
      | false => exact hkeeps k w hw
      | true =>
          obtain rfl := hkept rfl
          rcases eq_or_ne k b.next with rfl | hne
          · obtain rfl : v = w := by simpa using hw
            exact ⟨F.encode v, by simp, by simpa using hkey,
              fun _ => F.decode_encode v⟩
          · exact hkeeps k w (by simpa [Function.update_of_ne hne] using hw)
  | @close k' old new applied hold _ hclosed hkey _ =>
      intro k w hw
      rcases eq_or_ne k k' with rfl | hne
      · -- The entry is closed now, so its record only has to be there.
        obtain rfl : new = w := by simpa using hw
        obtain ⟨d, hd, hdk, -⟩ := h k old hold
        cases applied with
        | false => exact ⟨d, hd, hdk, fun hopen => (hclosed hopen).elim⟩
        | true =>
            have hkeys : k ∈ b.records.map F.key := hdk ▸ List.mem_map_of_mem hd
            rw [← keys_close hkey] at hkeys
            obtain ⟨d', hd', hdk'⟩ := List.mem_map.mp hkeys
            exact ⟨d', hd', hdk', fun hopen => (hclosed hopen).elim⟩
      · obtain ⟨d, hd, hdk, hdw⟩ :=
          h k w (by simpa [Function.update_of_ne hne] using hw)
        cases applied with
        | false => exact ⟨d, hd, hdk, hdw⟩
        | true =>
            refine ⟨d, ?_, hdk, hdw⟩
            rw [if_pos rfl, Collection.mem_updateOne_iff htidy.distinct]
            exact Or.inl ⟨hd, hdk ▸ hne⟩
  | reload hfrom _ _ =>
      intro k v hv
      obtain ⟨d, hd, hdv, hdk⟩ := hfrom k v hv
      exact ⟨d, hd, hdk, fun _ => hdv⟩

omit [DecidableEq κ] [IsTrans κ (· < ·)] in
/-- The next key is not in use. -/
theorem Backed.next_unused (h : Backed F b) (hfresh : Fresh F b) :
    b.entries b.next = none := by
  rw [Option.eq_none_iff_forall_not_mem]
  intro v hv
  obtain ⟨d, hd, hdk, -⟩ := h b.next v hv
  exact hfresh.key_ne d hd hdk

/-! ## Agreement -/

/-- Memory holds exactly what the records say. -/
def Agrees (F : Format κ ν δ) (b : Book κ ν δ) : Prop :=
  ∀ k v, b.entries k = some v ↔
    ∃ d ∈ b.records, F.decode d = v ∧ F.key d = k

omit [DecidableEq κ] [LT κ] [IsTrans κ (· < ·)]
  [Std.Irrefl fun a b : κ => a < b] in
/-- A memory loaded from all of the records agrees with them. -/
theorem agrees_of_loaded (hdistinct : (b.records.map F.key).Nodup)
    (hfrom : ∀ k v, b.entries k = some v →
      ∃ d ∈ b.records, F.decode d = v ∧ F.key d = k)
    (hall : ∀ d ∈ b.records, b.entries (F.key d) ≠ none) : Agrees F b := by
  intro k v
  refine ⟨hfrom k v, ?_⟩
  rintro ⟨d, hd, rfl, rfl⟩
  obtain ⟨w, hw⟩ := Option.ne_none_iff_exists'.mp (hall d hd)
  obtain ⟨d', hd', rfl, hkey⟩ := hfrom _ w hw
  obtain rfl : d' = d := List.inj_on_of_nodup_map hdistinct hd' hd hkey
  exact hw

omit [IsTrans κ (· < ·)] in
/-- As long as no write is lost, the two copies agree. -/
theorem Agrees.step (h : Agrees F b) (htidy : Tidy F b)
    (hstep : Step F True b b') : Agrees F b' := by
  cases hstep with
  | @assign v next kept applied hkey _ hkept hsynced =>
      obtain rfl := hsynced trivial
      obtain rfl := hkept rfl
      intro k w
      simp only [if_true, List.mem_append, List.mem_singleton]
      rcases eq_or_ne k b.next with rfl | hne
      · rw [Function.update_self]
        constructor
        · intro hw
          obtain rfl := Option.some.inj hw
          exact ⟨F.encode v, Or.inr rfl, F.decode_encode v, by simpa using hkey⟩
        · rintro ⟨d, hd | rfl, rfl, hdk⟩
          · exact (htidy.fresh.key_ne d hd hdk).elim
          · rw [F.decode_encode]
      · rw [Function.update_of_ne hne, h]
        constructor
        · rintro ⟨d, hd, hdw, hdk⟩
          exact ⟨d, Or.inl hd, hdw, hdk⟩
        · rintro ⟨d, hd | rfl, hdw, hdk⟩
          · exact ⟨d, hd, hdw, hdk⟩
          · rw [Format.key_encode, hkey] at hdk
            exact (hne hdk.symm).elim
  | @close k' old new applied hold _ _ hkey hsynced =>
      obtain rfl := hsynced trivial
      obtain ⟨d₀, hd₀, -, hkey₀⟩ := (h k' old).mp hold
      intro k w
      simp only [if_true, Collection.mem_updateOne_iff htidy.distinct]
      rcases eq_or_ne k k' with rfl | hne
      · rw [Function.update_self]
        constructor
        · intro hw
          obtain rfl := Option.some.inj hw
          exact ⟨F.encode new, Or.inr ⟨d₀, hd₀, hkey₀, rfl⟩,
            F.decode_encode new, by simpa using hkey⟩
        · rintro ⟨d, ⟨-, hdk'⟩ | ⟨-, -, -, rfl⟩, rfl, hdk⟩
          · exact (hdk' hdk).elim
          · rw [F.decode_encode]
      · rw [Function.update_of_ne hne, h]
        constructor
        · rintro ⟨d, hd, hdw, hdk⟩
          exact ⟨d, Or.inl ⟨hd, hdk ▸ hne⟩, hdw, hdk⟩
        · rintro ⟨d, ⟨hd, -⟩ | ⟨-, -, -, rfl⟩, hdw, hdk⟩
          · exact ⟨d, hd, hdw, hdk⟩
          · rw [Format.key_encode, hkey] at hdk
            exact (hne hdk.symm).elim
  | reload hfrom _ hsynced =>
      exact agrees_of_loaded htidy.distinct hfrom (hsynced trivial)

/-! ## Several steps -/

omit [Std.Irrefl fun a b : κ => a < b] in
theorem Fresh.steps (h : Fresh F b)
    (hsteps : ReflTransGen (Step F synced) b b') : Fresh F b' := by
  induction hsteps with
  | refl => exact h
  | tail _ hstep ih => exact ih.step hstep

theorem Tidy.steps (h : Tidy F b) (hsteps : ReflTransGen (Step F synced) b b') :
    Tidy F b' := by
  induction hsteps with
  | refl => exact h
  | tail _ hstep ih => exact ih.step hstep

theorem Settled.steps {k : κ} (h : Settled F k b) (htidy : Tidy F b)
    (hsteps : ReflTransGen (Step F synced) b b') : Settled F k b' := by
  induction hsteps with
  | refl => exact h
  | tail hsteps hstep ih => exact ih.step (htidy.steps hsteps) hstep

theorem Backed.steps (h : Backed F b) (htidy : Tidy F b)
    (hsteps : ReflTransGen (Step F synced) b b') : Backed F b' := by
  induction hsteps with
  | refl => exact h
  | tail hsteps hstep ih => exact ih.step (htidy.steps hsteps) hstep

theorem Agrees.steps (h : Agrees F b) (htidy : Tidy F b)
    (hsteps : ReflTransGen (Step F True) b b') : Agrees F b' := by
  induction hsteps with
  | refl => exact h
  | tail hsteps hstep ih => exact ih.step (htidy.steps hsteps) hstep

end Registry
