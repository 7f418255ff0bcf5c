import AuctionServer.House.Refinement

/-!
# What a search shows and what was reported before

A client who has seen every reply so far knows which offers are open: those
whose registration was reported and whose sale, cancellation or expiry was not
reported since.  A search without a keyword that is not served from the cache
shows these offers, as far as they meet the criteria, and no others.
-/

namespace AuctionServer
namespace Server

variable {s : Server} {db : Database} {id : UInt64}
  {terms : Marketplace.Terms UInt32 Item Time} {e : ServerEvent}

/-- The event reports that an offer was listed. -/
def ReportsListing (id : UInt64) (terms : Marketplace.Terms UInt32 Item Time)
    (e : ServerEvent) : Prop :=
  ∃ o now sellerId item price, e.input = .registerItem o now sellerId item price ∧
    e.output = .registered (.ok id) ∧
    termsOf (newListing id now sellerId item price) = terms

/-- The event reports that the offer was sold or taken back, or that a sweep
ended after `deadline`, when it runs out. -/
def ReportsEnd (id : UInt64) (deadline : Time) (e : ServerEvent) : Prop :=
  (∃ o now buyerId, e.input = .purchaseItem o now id buyerId ∧
      e.output = .purchased true) ∨
    (∃ o sellerId, e.input = .cancelListing o id sellerId ∧
      e.output = .cancelled (.ok true)) ∨
    ∃ o now order, e.input = .processExpiredItems o now order ∧
      e.output = .swept (.ok ()) ∧ deadline < now

/-- After these events the replies leave the offer open. -/
def ReportedOpen (past : List ServerEvent) (id : UInt64)
    (terms : Marketplace.Terms UInt32 Item Time) : Prop :=
  ∃ earlier e later, past = earlier ++ e :: later ∧ ReportsListing id terms e ∧
    ∀ e ∈ later, ¬ ReportsEnd id terms.deadline e

/-- A search that the cache does not answer. -/
def AsksHouse (o : SearchOutcomes) (criteria : SearchCriteria)
    (results : List AuctionItem) (e : ServerEvent) : Prop :=
  e.input = .searchItems o criteria ∧ e.output = .found (.ok results) ∧
    e.before.cachedResults o criteria = none

theorem reportsListing_iff :
    ReportsListing id terms e ↔ ∃ owner, act db e = .list id owner terms := by
  constructor
  · rintro ⟨o, now, sellerId, item, price, hinput, houtput, rfl⟩
    exact ⟨item.ownerId, by simp [act, hinput, houtput]⟩
  · rintro ⟨owner, hact⟩
    unfold act at hact
    split at hact
    · next hinput houtput =>
        simp only [Marketplace.Act.list.injEq] at hact
        obtain ⟨rfl, -, rfl⟩ := hact
        exact ⟨_, _, _, _, _, hinput, houtput, rfl⟩
    all_goals try cases hact
    split at hact <;> cases hact

theorem reportsEnd_iff {deadline : Time} :
    ReportsEnd id deadline e ↔ (act db e).Ends id deadline := by
  constructor
  · rintro (⟨o, now, buyerId, hinput, houtput⟩ | ⟨o, sellerId, hinput, houtput⟩ |
      ⟨o, now, order, hinput, houtput, hdue⟩)
    · simp [act, hinput, houtput, Marketplace.Act.Ends]
    · simp [act, hinput, houtput, Marketplace.Act.Ends]
    · simpa [act, hinput, houtput, Marketplace.Act.Ends] using hdue
  · intro hends
    unfold act at hends
    split at hends
    · exact hends.elim
    · next hinput houtput =>
        obtain ⟨rfl, rfl⟩ := hends
        exact Or.inl ⟨_, _, _, hinput, houtput⟩
    · next hinput houtput =>
        obtain ⟨rfl, rfl⟩ := hends
        exact Or.inr (Or.inl ⟨_, _, hinput, houtput⟩)
    · next hinput houtput =>
        exact Or.inr (Or.inr ⟨_, _, _, hinput, houtput, hends⟩)
    · split at hends <;> exact hends.elim
    · exact hends.elim

theorem reportedOpen_iff {past : List ServerEvent} :
    ReportedOpen past id terms ↔
      ∃ earlier owner later,
        past.map (act db) = earlier ++ .list id owner terms :: later ∧
          ∀ a ∈ later, ¬ a.Ends id terms.deadline := by
  constructor
  · rintro ⟨earlier, e, later, rfl, hlists, hlater⟩
    obtain ⟨owner, hact⟩ : ∃ owner, act db e = .list id owner terms :=
      reportsListing_iff.mp hlists
    refine ⟨earlier.map (act db), owner, later.map (act db), by simp [hact], ?_⟩
    intro a ha
    obtain ⟨e', he', rfl⟩ := List.mem_map.mp ha
    rw [← reportsEnd_iff]
    exact hlater e' he'
  · rintro ⟨earlier, owner, later, heq, hlater⟩
    obtain ⟨earlier', tail, rfl, rfl, htail⟩ := List.map_eq_append_iff.mp heq
    obtain ⟨e, later', rfl, hact, rfl⟩ := List.map_eq_cons_iff.mp htail
    refine ⟨earlier', e, later', rfl, reportsListing_iff.mpr ⟨owner, hact⟩, ?_⟩
    intro e' he'
    rw [@reportsEnd_iff db]
    exact hlater _ (List.mem_map_of_mem he')

end Server
end AuctionServer
