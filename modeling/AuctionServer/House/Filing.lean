import AuctionServer.House.Moves

/-!
# Listings and indices fit together

Two invariants of moves.  In every state, whatever failed before, a listing is
kept under its own id and an index files only ids of listings.  While seller
lookups are answered, every open listing is filed under all of its keys; a
lost write cannot break this, since memory and indices change together.
-/

namespace AuctionServer

open Relation (ReflTransGen)

namespace Server

/-- Listings are kept under their own ids, and only their ids are filed. -/
structure WellFiled (s : Server) : Prop where
  keyed : ∀ (id : UInt64) (item : AuctionItem),
    s.house.auctionItems[id]? = some item → item.id = id
  known : ∀ k id, s.house.Files k id → id ∈ s.house.auctionItems

variable {s s' : Server} {g : Guarantees}

theorem wellFiled_initial (db : Database) :
    WellFiled { house := AuctionHouse.initial, db } where
  keyed := by
    intro id item hitem
    simp [AuctionHouse.initial] at hitem
  known := by
    intro k id hfiles
    exact (AuctionHouse.not_files_initial k id hfiles).elim

theorem WellFiled.move (h : s.WellFiled) (hmove : Move g s s') :
    s'.WellFiled := by
  cases hmove with
  | touch hhouse _ _ =>
      constructor
      · rw [hhouse]
        exact h.keyed
      · rw [hhouse]
        exact h.known
  | @assign item kept applied keys _ _ _ _ _ _ hitems hfiles _ _ =>
      cases kept with
      | false =>
          simp only [Bool.false_eq_true, if_false, false_and, or_false] at hitems hfiles
          constructor
          · rw [hitems]
            exact h.keyed
          · intro k id hk
            rw [hitems]
            exact h.known k id ((hfiles k id).mp hk)
      | true =>
          simp only [if_true, true_and] at hitems hfiles
          constructor
          · intro id item' hitem'
            rw [hitems, Std.ExtTreeMap.getElem?_insert] at hitem'
            split at hitem'
            · next hid =>
                obtain rfl := Option.some.inj hitem'
                simpa using hid
            · exact h.keyed id item' hitem'
          · intro k id hk
            rw [hitems, Std.ExtTreeMap.mem_insert]
            rcases (hfiles k id).mp hk with hold | ⟨-, rfl⟩
            · exact Or.inr (h.known k id hold)
            · simp
  | @close id old new _ hold _ _ hid _ hhouse _ _ =>
      constructor
      · intro id' item' hitem'
        rw [hhouse] at hitem'
        rcases eq_or_ne id id' with rfl | hne
        · rw [setItem_self] at hitem'
          obtain rfl := Option.some.inj hitem'
          exact hid.trans (h.keyed id old hold)
        · rw [setItem_of_ne _ _ hne] at hitem'
          exact h.keyed id' item' hitem'
      · intro k id' hk
        rw [hhouse] at hk ⊢
        have hknown : id' ∈ s.house.auctionItems := by
          apply h.known k id'
          cases k <;> exact hk
        exact Std.ExtTreeMap.mem_insert.mpr (Or.inr hknown)
  | withdraw _ _ hsame hfiles _ =>
      constructor
      · rw [hsame.1]
        exact h.keyed
      · intro k id hk
        rw [hsame.1]
        exact h.known k id ((hfiles k id).mp hk).1
  | reload _ hitems _ _ hfiles _ _ _ =>
      constructor
      · intro id item hitem
        exact (hitems id item hitem).2
      · exact hfiles

theorem WellFiled.moves (h : s.WellFiled)
    (hmoves : ReflTransGen (Move g) s s') : s'.WellFiled := by
  induction hmoves with
  | refl => exact h
  | tail _ hmove ih => exact ih.move hmove

/-- Everything a search relies on while seller lookups are answered. -/
structure Indexed (s : Server) : Prop where
  wellFiled : s.WellFiled
  readable : s.db.BalancesReadable
  covered : s.Covered

theorem Indexed.move (h : s.Indexed) (hlookups : g.lookups)
    (hmove : Move g s s') : s'.Indexed := by
  have hwell := h.wellFiled.move hmove
  cases hmove with
  | touch hhouse _ hnames =>
      refine ⟨hwell, hnames.2 h.readable, ?_⟩
      intro id item hitem hactive k hk
      rw [hhouse] at hitem ⊢
      rw [hnames.1] at hk
      exact h.covered id item hitem hactive k hk
  | @assign item kept applied keys _ _ _ _ _ _ hitems hfiles hkeys hdb =>
      have hnames : s.db.SameNames s'.db := by
        apply Database.SameNames.of_users
        rw [hdb]
      refine ⟨hwell, hnames.2 h.readable, ?_⟩
      intro id item' hitem' hactive k hk
      rw [hnames.1] at hk
      rw [hfiles]
      cases kept with
      | false =>
          simp only [Bool.false_eq_true, if_false] at hitems
          rw [hitems] at hitem'
          exact Or.inl (h.covered id item' hitem' hactive k hk)
      | true =>
          simp only [if_true] at hitems
          rw [hitems, Std.ExtTreeMap.getElem?_insert] at hitem'
          split at hitem'
          · next hid =>
              obtain rfl := Option.some.inj hitem'
              have hid' : item.id = id := by simpa using hid
              exact Or.inr ⟨rfl, hkeys hlookups rfl hk, hid'.symm⟩
          · exact Or.inl (h.covered id item' hitem' hactive k hk)
  | @close id old new _ _ _ hclosed _ _ hhouse _ husers =>
      have hnames : s.db.SameNames s'.db :=
        Database.SameNames.of_users husers
      refine ⟨hwell, hnames.2 h.readable, ?_⟩
      intro id' item' hitem' hactive k hk
      rw [hnames.1] at hk
      rw [hhouse] at hitem' ⊢
      rcases eq_or_ne id id' with rfl | hne
      · rw [setItem_self] at hitem'
        obtain rfl := Option.some.inj hitem'
        exact (hclosed hactive).elim
      · rw [setItem_of_ne _ _ hne] at hitem'
        have hfiles := h.covered id' item' hitem' hactive k hk
        cases k <;> exact hfiles
  | @withdraw id item keys hitem hclosed hsame hfiles hdb =>
      refine ⟨hwell, by rw [hdb]; exact h.readable, ?_⟩
      intro id' item' hitem' hactive k hk
      rw [hsame.1] at hitem'
      rw [hdb] at hk
      -- The withdrawn id belongs to a closed listing.
      have hne : id' ≠ item.id := by
        rintro rfl
        rw [h.wellFiled.keyed id item hitem, hitem] at hitem'
        obtain rfl := Option.some.inj hitem'
        exact hclosed hactive
      exact (hfiles k id').mpr
        ⟨h.covered id' item' hitem' hactive k hk, fun hmem => hne hmem.2⟩
  | reload _ _ _ _ _ hcovered _ hdb =>
      exact ⟨hwell, by rw [hdb]; exact h.readable, hcovered hlookups⟩

theorem Indexed.moves (h : s.Indexed) (hlookups : g.lookups)
    (hmoves : ReflTransGen (Move g) s s') : s'.Indexed := by
  induction hmoves with
  | refl => exact h
  | tail _ hmove ih => exact ih.move hlookups hmove

end Server
end AuctionServer
