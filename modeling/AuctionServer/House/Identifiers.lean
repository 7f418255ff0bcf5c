import AuctionServer.House.Book

/-!
# Ids of new listings

The next id lives in memory and is rebuilt at every start from the documents
the start-up query delivers.  As long as each start sees a document with the
greatest stored id, the next id stays above every stored id, whatever else
fails.  A start whose query fails counts from one again.
-/

namespace AuctionServer

namespace Server

variable [StdSort] {db : Database} {order : List AuctionDocument}
  {failsAfter : Option ℕ} {sellers : ℕ → ReadOutcome} {s : Server}

omit [StdSort] in
/-- Every stored id is below the next one. -/
def IdsBelow (s : Server) : Prop :=
  s.WellFiled ∧ Registry.Fresh format s.book

theorem idsBelow_preserves :
    machine.Preserves (fun e => e.before.IdsAdvance e.input) IdsBelow := by
  intro e hfires hids h
  refine ⟨wellFiled_preserves e hfires trivial h.1, ?_⟩
  have hsteps := step_book hfires h.1 hids
  exact h.2.steps hsteps

/-- Each id a run assigns is new to the store, provided every start of the run
sees a document with the greatest stored id. -/
theorem assigned_id_is_new {calls : List Call} {es : List ServerEvent}
    (hserve : serve db order failsAfter sellers calls = some (es, s))
    (hstart : SeesLastId db order failsAfter)
    (hcalls : ∀ e ∈ es, e.before.IdsAdvance e.input) :
    ∀ e ∈ es, ∀ o now sellerId item price,
      e.input = .registerItem o now sellerId item price →
        ∀ doc ∈ e.before.db.auctions,
          doc.id ≠ e.before.house.nextAuctionId.toInt64 := by
  obtain ⟨s₀, hstarts, hrun⟩ := serve_eq_some.mp hserve
  have hbelow : s₀.IdsBelow := by
    refine ⟨hstarts.wellFiled, ?_⟩
    obtain ⟨-, hdb, -⟩ := restart_loaded False.elim hstarts
    intro doc hdoc
    apply restart_fresh hstart hstarts doc
    simpa [book, hdb] using hdoc
  have hevents := (Machine.run_invariant idsBelow_preserves hrun hcalls hbelow).2
  intro e he o now sellerId item price _ doc hdoc heq
  exact ((hevents e he).1.2).key_ne doc hdoc (eq_toInt64_iff.mp heq)

omit [StdSort] in
/-- A house over a market with one sale registers two more listings, the
second after a restart. -/
theorem assigned_id_is_new_market :
    ∃ es s, @serve StdSort.insertion soldMarket [soldDocument "iron sword"] none
        (fun _ => .answered)
        [offer "oak shield",
          .restart [itemToBson (newListing 2 1000 7 (itemNamed "oak shield") 60),
            soldDocument "iron sword"] (some 1) fun _ => .answered,
          offer "bow"] = some (es, s) ∧
      s.house.nextAuctionId = 4 ∧
      ∀ e ∈ es, ∀ o now sellerId item price,
        e.input = .registerItem o now sellerId item price →
          ∀ doc ∈ e.before.db.auctions,
            doc.id ≠ e.before.house.nextAuctionId.toInt64 := by
  obtain ⟨es, s, hserve, hes⟩ :=
    @exists_serve StdSort.insertion soldMarket [soldDocument "iron sword"] none
      (fun _ => .answered)
      [offer "oak shield",
        .restart [itemToBson (newListing 2 1000 7 (itemNamed "oak shield") 60),
          soldDocument "iron sword"] (some 1) fun _ => .answered,
        offer "bow"]
      (fun es s => es.all (fun e => decide (e.before.IdsAdvance e.input)) &&
        decide (s.house.nextAuctionId = 4)) (by decide)
  simp only [Bool.and_eq_true, List.all_eq_true, decide_eq_true_eq] at hes
  exact ⟨es, s, hserve, hes.2,
    @assigned_id_is_new StdSort.insertion soldMarket _ _ _ s _ es hserve
      (by decide) hes.1⟩

omit [StdSort] in
/-- A start whose query fails at once assigns the id of the sold listing
again. -/
theorem failed_start_reuses_id :
    ∃ es s, @serve StdSort.insertion soldMarket [soldDocument "iron sword"]
        (some 0) (fun _ => .answered) [offer "oak shield"] = some (es, s) ∧
      ∃ e ∈ es, (∃ o now sellerId item price,
          e.input = .registerItem o now sellerId item price) ∧
        ∃ doc ∈ e.before.db.auctions,
          doc.id = e.before.house.nextAuctionId.toInt64 := by
  obtain ⟨es, s, hserve, hes⟩ :=
    @exists_serve StdSort.insertion soldMarket [soldDocument "iron sword"]
      (some 0) (fun _ => .answered) [offer "oak shield"]
      (fun es _ => es.any fun e => e.before.db.auctions.any fun doc =>
        decide (doc.id = e.before.house.nextAuctionId.toInt64))
      (by decide)
  obtain ⟨s₀, -, hrun⟩ := (@serve_eq_some StdSort.insertion _ _ _ _ _ _ _).mp hserve
  simp only [List.any_eq_true, decide_eq_true_eq] at hes
  obtain ⟨e, he, doc, hdoc, hid⟩ := hes
  have hinput := Machine.run_input_mem hrun e he
  refine ⟨es, s, hserve, e, he, ?_, doc, hdoc, hid⟩
  rw [List.mem_singleton.mp hinput]
  exact ⟨_, _, _, _, _, rfl⟩

end Server
end AuctionServer
