import AuctionServer.Support.Refinement

/-!
# A marketplace

What an auction house is for, without its indices, caches and documents.
Sellers put up offers at a fixed price, at most one buyer gets each of them,
and the price moves from the buyer's balance to the seller's.  An offer that
is not sold can be taken back or run out, and anybody can ask for the open
ones.

Every act of the marketplace says whether it was granted, and it is refused only
when it must be.
-/

namespace Marketplace

/-- How an offer stands. -/
inductive Standing (υ τ : Type) where
  | opened
  | sold (buyer : υ) (time : τ)
  | cancelled
  | expired

/-- The terms of an offer never change. -/
structure Terms (υ γ τ : Type) where
  seller : υ
  goods : γ
  price : ℕ
  listed : τ
  deadline : τ

/-- An offer, with the owner of the goods. -/
structure Offer (υ γ τ : Type) where
  terms : Terms υ γ τ
  owner : υ
  standing : Standing υ τ

/-- An open offer that ran out before `now` expires. -/
def Offer.swept {υ γ τ : Type} [LT τ] [DecidableLT τ] (now : τ)
    (offer : Offer υ γ τ) : Offer υ γ τ :=
  match offer.standing with
  | .opened =>
      if offer.terms.deadline < now then { offer with standing := .expired }
      else offer
  | _ => offer

/-- The offers ever made, and what each user has. -/
@[ext]
structure Market (ι υ γ τ : Type) where
  offers : ι → Option (Offer υ γ τ)
  balance : υ → Option ℕ

/-- A question: which offers are wanted, in which order, whether the answer is
to miss none of them, and which window of the list is shown. -/
structure Query (ι υ γ τ : Type) where
  wanted : Terms υ γ τ → Prop
  inOrder : ι × Terms υ γ τ → ι × Terms υ γ τ → Prop
  exhaustive : Prop
  start : ℕ
  count : Option ℕ

/-- What is done on the marketplace, with what is said about it. -/
inductive Act (ι υ γ τ : Type) where
  | list (id : ι) (owner : υ) (terms : Terms υ γ τ)
  | buy (id : ι) (buyer : υ) (time : τ) (granted : Bool)
  | cancel (id : ι) (user : υ) (granted : Bool)
  | sweep (now : τ)
  | ask (query : Query ι υ γ τ) (page : List (ι × Terms υ γ τ))
  | rest

variable {ι υ γ τ : Type}

namespace Query

/-- The window of a list. -/
def window {α : Type} (q : Query ι υ γ τ) (items : List α) : List α :=
  match q.count with
  | none => items.drop q.start
  | some count => (items.drop q.start).take count

end Query

namespace Market

variable (M : Market ι υ γ τ)

/-- The offer under `id` is open, on these terms. -/
def Open (id : ι) (terms : Terms υ γ τ) : Prop :=
  ∃ offer, M.offers id = some offer ∧ offer.standing = .opened ∧
    offer.terms = terms

/-- The buyer can have the offer: somebody else makes it, it costs something,
the buyer has the price, and the seller can take it. -/
structure Buyable (limit : ℕ) (id : ι) (buyer : υ) (terms : Terms υ γ τ) :
    Prop where
  isOpen : M.Open id terms
  other : terms.seller ≠ buyer
  costs : 0 < terms.price
  covered : ∃ b, M.balance buyer = some b ∧ terms.price ≤ b
  room : ∃ a, M.balance terms.seller = some a ∧ a + terms.price ≤ limit

/-- The answer shows a window of a list of open offers that are wanted. -/
def Answers (q : Query ι υ γ τ) (page : List (ι × Terms υ γ τ)) : Prop :=
  ∃ found : List (ι × Terms υ γ τ), page = q.window found ∧
    (found.map Prod.fst).Nodup ∧ found.Pairwise q.inOrder ∧
    (∀ x ∈ found, M.Open x.1 x.2 ∧ q.wanted x.2) ∧
    (q.exhaustive → ∀ id terms, M.Open id terms → q.wanted terms →
      (id, terms) ∈ found)

variable [DecidableEq ι] [DecidableEq υ]

/-- Put an offer under `id`. -/
def put (id : ι) (offer : Offer υ γ τ) : Market ι υ γ τ :=
  { M with offers := Function.update M.offers id (some offer) }

/-- Move a price from one user to another. -/
def pay (buyer seller : υ) (price : ℕ) : Market ι υ γ τ :=
  { M with
    balance := fun u =>
      (M.balance u).map fun b =>
        if u = seller then b + price else if u = buyer then b - price else b }

/-- The offers that ran out before `now` expire. -/
def sweep [LT τ] [DecidableLT τ] (now : τ) : Market ι υ γ τ :=
  { M with offers := fun id => (M.offers id).map (Offer.swept now) }

end Market

variable [DecidableEq ι] [DecidableEq υ] [LT τ] [DecidableLT τ]

/-- One step of the marketplace, where no balance may pass `limit`. -/
inductive Step (limit : ℕ) :
    Market ι υ γ τ → Act ι υ γ τ → Market ι υ γ τ → Prop
  | list {M : Market ι υ γ τ} {id : ι} {owner : υ} {terms : Terms υ γ τ}
      (hfresh : M.offers id = none) :
      Step limit M (.list id owner terms) (M.put id ⟨terms, owner, .opened⟩)
  | sold {M : Market ι υ γ τ} {id : ι} {buyer : υ} {time : τ}
      {terms : Terms υ γ τ} (hbuyable : M.Buyable limit id buyer terms) :
      Step limit M (.buy id buyer time true)
        ((M.pay buyer terms.seller terms.price).put id
          ⟨terms, buyer, .sold buyer time⟩)
  | refused {M : Market ι υ γ τ} {id : ι} {buyer : υ} {time : τ}
      (hnot : ∀ terms, ¬ M.Buyable limit id buyer terms) :
      Step limit M (.buy id buyer time false) M
  | cancelled {M : Market ι υ γ τ} {id : ι} {offer : Offer υ γ τ}
      (hoffer : M.offers id = some offer) (hopen : offer.standing = .opened) :
      Step limit M (.cancel id offer.terms.seller true)
        (M.put id { offer with standing := .cancelled })
  | kept {M : Market ι υ γ τ} {id : ι} {user : υ}
      (hnot : ∀ terms, M.Open id terms → terms.seller ≠ user) :
      Step limit M (.cancel id user false) M
  | swept {M : Market ι υ γ τ} {now : τ} :
      Step limit M (.sweep now) (M.sweep now)
  | shown {M : Market ι υ γ τ} {query : Query ι υ γ τ}
      {page : List (ι × Terms υ γ τ)} (hanswers : M.Answers query page) :
      Step limit M (.ask query page) M
  | rest {M : Market ι υ γ τ} : Step limit M .rest M

/-- The act ends the offer `id`, which runs out at `deadline`. -/
def Act.Ends (id : ι) (deadline : τ) : Act ι υ γ τ → Prop
  | .buy id' _ _ granted => id' = id ∧ granted = true
  | .cancel id' _ granted => id' = id ∧ granted = true
  | .sweep now => deadline < now
  | _ => False

variable {limit : ℕ} {M M' : Market ι υ γ τ} {id : ι} {terms : Terms υ γ τ}

omit [DecidableEq υ] [LT τ] [DecidableLT τ] in
theorem Market.open_put {id' : ι} {offer : Offer υ γ τ} :
    (M.put id' offer).Open id terms ↔
      (id = id' ∧ offer.standing = .opened ∧ offer.terms = terms) ∨
        (id ≠ id' ∧ M.Open id terms) := by
  unfold Open put
  rcases eq_or_ne id id' with rfl | hne
  · simp
  · simp [hne]

omit [DecidableEq ι] [DecidableEq υ] in
theorem Market.open_sweep {now : τ} :
    (M.sweep now).Open id terms ↔ M.Open id terms ∧ ¬ terms.deadline < now := by
  unfold Open sweep
  constructor
  · rintro ⟨offer, hoffer, hopen, rfl⟩
    obtain ⟨old, hold, rfl⟩ := Option.map_eq_some_iff.mp hoffer
    rcases hstanding : old.standing with _ | _ | _ | _
    · simp only [Offer.swept, hstanding] at hopen ⊢
      by_cases hdue : old.terms.deadline < now
      · simp [hdue] at hopen
      · rw [if_neg hdue]
        exact ⟨⟨old, hold, hstanding, rfl⟩, hdue⟩
    all_goals simp [Offer.swept, hstanding] at hopen
  · rintro ⟨⟨offer, hoffer, hopen, rfl⟩, hdue⟩
    exact ⟨offer, by simp [hoffer, Offer.swept, hopen, hdue], hopen, rfl⟩

/-- What a step does to an offer: it is there from the act that lists it to
the act that ends it. -/
theorem Step.open_iff {act : Act ι υ γ τ} (h : Step limit M act M') :
    M'.Open id terms ↔
      (∃ owner, act = .list id owner terms) ∨
        (M.Open id terms ∧ ¬ act.Ends id terms.deadline) := by
  cases h with
  | @list id' owner terms' hfresh =>
      rw [Market.open_put]
      constructor
      · rintro (⟨rfl, -, rfl⟩ | ⟨-, hopen⟩)
        · exact Or.inl ⟨owner, rfl⟩
        · exact Or.inr ⟨hopen, not_false⟩
      · rintro (⟨owner', heq⟩ | ⟨hopen, -⟩)
        · obtain ⟨rfl, -, rfl⟩ := by simpa using heq
          exact Or.inl ⟨rfl, rfl, rfl⟩
        · refine Or.inr ⟨?_, hopen⟩
          rintro rfl
          obtain ⟨offer, hoffer, -⟩ := hopen
          rw [hfresh] at hoffer
          cases hoffer
  | @sold id' buyer time terms' hbuyable =>
      rw [Market.open_put]
      have hpaid : (M.pay buyer terms'.seller terms'.price).Open id terms ↔
          M.Open id terms := Iff.rfl
      simp [hpaid, Act.Ends, eq_comm, and_comm]
  | refused hnot => simp [Act.Ends]
  | @cancelled id' offer hoffer hopen =>
      rw [Market.open_put]
      simp [Act.Ends, eq_comm, and_comm]
  | kept hnot => simp [Act.Ends]
  | @swept now =>
      rw [Market.open_sweep]
      simp [Act.Ends]
  | shown hanswers => simp [Act.Ends]
  | rest => simp [Act.Ends]

open Machine (Trace)

/-- After a trace that starts with no offer open, exactly those are open that
an act has listed and no later one has ended. -/
theorem open_iff_of_trace {acts : List (Act ι υ γ τ)}
    (h : Trace (Step limit) M acts M')
    (hnone : ∀ id terms, ¬ M.Open id terms) :
    M'.Open id terms ↔
      ∃ earlier owner later, acts = earlier ++ .list id owner terms :: later ∧
        ∀ act ∈ later, ¬ act.Ends id terms.deadline := by
  induction acts using List.reverseRecOn generalizing M' with
  | nil =>
      obtain rfl := Machine.trace_nil.mp h
      simp [hnone]
  | append_singleton acts act ih =>
      obtain ⟨N, hfirst, hlast⟩ := Machine.trace_append.mp h
      obtain ⟨N', hstep, hend⟩ := Machine.trace_cons.mp hlast
      obtain rfl := Machine.trace_nil.mp hend
      rw [hstep.open_iff, ih hfirst]
      constructor
      · rintro (⟨owner, rfl⟩ | ⟨⟨earlier, owner, later, rfl, hlater⟩, hends⟩)
        · exact ⟨acts, owner, [], rfl, by simp⟩
        · refine ⟨earlier, owner, later ++ [act], by simp, ?_⟩
          intro act' hact'
          rcases List.mem_append.mp hact' with hmem | hmem
          · exact hlater act' hmem
          · rw [List.mem_singleton.mp hmem]
            exact hends
      · rintro ⟨earlier, owner, later, heq, hlater⟩
        -- The act at the end is the listing itself, or one after it.
        rcases List.eq_nil_or_concat' later with rfl | ⟨later, last, rfl⟩
        · obtain ⟨-, hact⟩ := List.append_inj' heq rfl
          exact Or.inl ⟨owner, List.cons.inj hact |>.1⟩
        · rw [← List.cons_append, ← List.append_assoc] at heq
          obtain ⟨rfl, hact⟩ := List.append_inj' heq rfl
          obtain rfl := (List.cons.inj hact).1
          exact Or.inr ⟨⟨earlier, owner, later, rfl,
            fun act' hact' => hlater act' (by simp [hact'])⟩,
            hlater _ (by simp)⟩

end Marketplace
