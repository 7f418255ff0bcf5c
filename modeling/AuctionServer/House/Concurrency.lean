import AuctionServer.House.Interruptions
import AuctionServer.House.Disposal

/-!
# Threads that share an auction house

However the threads interleave, whenever cache entries expire and wherever the
process dies, what happens is a run of the server that makes whole calls, one
after the other.  So what is known of its runs is known of the threads: a
listing is disposed of once, whoever asks for it at the same time.
-/

namespace AuctionServer

namespace Server

variable [StdSort] {s : Server}

/-! ## Turns of the threads -/

/-- A recorded turn of the threads. -/
abbrev ThreadEvent :=
  Guarded.Event Server Operation Encounter CallProgress Reply String Startup

/-- A thread is told that it sold or cancelled the listing `id`. -/
def toldDisposed (id : UInt64) (e : ThreadEvent) : Bool :=
  match e.output with
  | .returned _ (.purchaseItem auctionId _) (.purchased true) => auctionId == id
  | .returned _ (.cancelListing auctionId _) (.cancelled (.ok true)) =>
      auctionId == id
  | _ => false

/-- The counter of ids is not at the last one. -/
def CanCount (s : Server) : Prop :=
  s.house.nextAuctionId ≠ -1

/-- A restart loads everything. -/
def loadsAll : Guarded.Outcome Operation Reply String Startup → Bool
  | .crashed x => x.failsAfter.isNone
  | _ => true

/-- A step for which the stores answer. -/
def answeredAt (now : Time) : Encounter where
  now := now
  read := .answered
  write := .done
  unset := fun _ => default
  order := []

/-- A sword is listed; two threads want to buy it and a third one to withdraw
it.  The first buyer is at the balances when a cache entry expires.  The
process dies when a second sword is in the database but not in the house. -/
def race : List (Guarded.Turn Operation Encounter String Startup) :=
  [.call 1 (.registerItem 7 (itemNamed "iron sword") 60), .enter 1,
    .advance (answeredAt 1000), .advance (answeredAt 1000),
    .call 1 (.purchaseItem 1 8), .call 2 (.purchaseItem 1 8), .enter 2,
    .call 3 (.cancelListing 1 7),
    .advance (answeredAt 2000), .advance (answeredAt 2000),
    .disturb "search:1",
    .advance (answeredAt 2000), .advance (answeredAt 2000),
    .advance (answeredAt 2000), .advance (answeredAt 2000),
    .advance (answeredAt 2000), .advance (answeredAt 2000),
    .enter 1, .advance (answeredAt 2000), .enter 3, .advance (answeredAt 2000),
    .call 2 (.registerItem 7 (itemNamed "iron sword") 60), .enter 2,
    .advance (answeredAt 3000),
    .crash ⟨[soldDocument "iron sword",
      itemToBson (newListing 2 3000 7 (itemNamed "iron sword") 60)], none,
      fun _ => .answered⟩]

/-- In the race somebody gets the sword, there are ids left, and the restart
loads everything. -/
structure RaceGoes (es : List ThreadEvent)
    (t : Guarded.Threads Server Operation CallProgress) : Prop where
  free : t.holder = none
  once : es.countP (toldDisposed 1) = 1
  taken : ∀ e ∈ es, Guarded.Taken CanCount e
  restarts : ∀ e ∈ es, loadsAll e.output = true

omit [StdSort] in
theorem exists_race :
    ∃ s es t, Starts market [] none (fun _ => .answered) s ∧
      (@houseCalls StdSort.insertion).machine.run (Guarded.begin s) race =
        some (es, t) ∧ RaceGoes es t := by
  have hrace : (restart { house := AuctionHouse.initial, db := market } [] none
      fun _ => .answered).any (fun s =>
        ((@houseCalls StdSort.insertion).machine.run (Guarded.begin s) race).any
          fun r => r.2.holder.isNone && r.1.countP (toldDisposed 1) == 1 &&
            r.1.all (fun e => decide (e.before.shared.house.nextAuctionId ≠ -1)) &&
            r.1.all fun e => loadsAll e.output) = true := by decide
  obtain ⟨s, hstart, hrun⟩ := (Option.any_eq_true _ _).mp hrace
  obtain ⟨⟨es, t⟩, hrun, hgoes⟩ := (Option.any_eq_true _ _).mp hrun
  simp only [Bool.and_eq_true, List.all_eq_true, beq_iff_eq,
    Option.isNone_iff_eq_none, decide_eq_true_eq] at hgoes
  obtain ⟨⟨⟨hfree, honce⟩, hcount⟩, hrestarts⟩ := hgoes
  exact ⟨s, es, t, hstart, hrun, hfree, honce, fun e he _ _ => hcount e he,
    hrestarts⟩

/-! ## Serialization -/

/-- The call asks for the operation and is answered so. -/
def Serves (c : Operation) (r : Reply) (call : Call) (reply : Reply) : Prop :=
  call.operation = some c ∧ reply = r

/-- The call is the expiry of the cache entry. -/
def Drops (key : String) (call : Call) (reply : Reply) : Prop :=
  call = .expireKey key ∧ reply = .keyExpired

/-- The call is the restart. -/
def Restarts (x : Startup) (call : Call) (reply : Reply) : Prop :=
  call = .restart x.order x.failsAfter x.sellers ∧ reply = .restarted

/-- What is left at the start of a call is the call. -/
theorem exists_step_of_ends {c : Operation} {r : Reply} {t : Server}
    (h : Ends s c.start r t) :
    ∃ call reply, Serves c r call reply ∧ s.step call = some (reply, t) := by
  cases c with
  | registerItem sellerId item price =>
      obtain ⟨o, now, heq⟩ := h
      cases heq
      exact ⟨.registerItem o now sellerId item price, _, ⟨rfl, rfl⟩, rfl⟩
  | searchItems criteria =>
      obtain ⟨o, heq⟩ := h
      obtain ⟨⟨result, s'⟩, hsearch, heq⟩ := Option.map_eq_some_iff.mp heq
      cases heq
      exact ⟨.searchItems o criteria, _, ⟨rfl, rfl⟩, by simp [step, hsearch]⟩
  | purchaseItem auctionId buyerId =>
      obtain ⟨o, now, heq⟩ := h
      cases heq
      exact ⟨.purchaseItem o now auctionId buyerId, _, ⟨rfl, rfl⟩, rfl⟩
  | cancelListing auctionId sellerId =>
      obtain ⟨o, heq⟩ := h
      cases heq
      exact ⟨.cancelListing o auctionId sellerId, _, ⟨rfl, rfl⟩, rfl⟩
  | processExpiredItems =>
      obtain ⟨o, now, order, horder, heq⟩ := h
      cases heq
      exact ⟨.processExpiredItems o now order, _, ⟨rfl, rfl⟩, if_pos horder⟩

/-- The server makes whole calls as the threads make them step by step. -/
theorem houseCalls_implements :
    houseCalls.Implements machine Serves Drops Restarts where
  whole s c r t h := exists_step_of_ends (ends_of_returns h)
  disturbed s key := ⟨.expireKey key, .keyExpired, ⟨rfl, rfl⟩, rfl⟩
  crashed s x t h :=
    ⟨.restart x.order x.failsAfter x.sellers, .restarted, ⟨rfl, rfl⟩, by
      change Option.map _ (s.restart _ _ _) = _
      rw [show s.restart x.order x.failsAfter x.sellers = some t from h]
      rfl⟩
  moves s m o s' m' key h := advance_expireKey h key
  abandoned s c a x t hwithin hcrash := by
    by_cases hlooking : ∃ criteria, a.2 = .looking criteria
    · obtain ⟨criteria, hlooking⟩ := hlooking
      obtain rfl := eq_of_looking hwithin hlooking
      exact .inl hcrash
    · obtain ⟨r, u, hreturns, hdb⟩ := @canStop _ a.2 a.1
        fun criteria heq => hlooking ⟨criteria, heq⟩
      refine .inr ⟨r, u, hreturns, ?_⟩
      rw [← hcrash]
      exact restart_of_db hdb x.order x.failsAfter x.sellers

/-- Whatever the threads do, calls of the server one after the other do the
same.  What holds whenever a thread takes the mutex holds where the server
makes the calls. -/
theorem threads_serialize {K : Server → Prop}
    (hkept : ∀ s key, K s → K (s.expireKey key))
    {turns : List (Guarded.Turn Operation Encounter String Startup)}
    {es : List ThreadEvent} {t : Guarded.Threads Server Operation CallProgress}
    (hrun : houseCalls.machine.run (Guarded.begin s) turns = some (es, t))
    (htaken : ∀ e ∈ es, Guarded.Taken K e) :
    ∃ parts u,
      List.Forall₂ (Guarded.Meets Serves Drops Restarts K) es parts ∧
      machine.run s (parts.flatten.map Machine.Event.input) =
        some (parts.flatten, u) ∧
      (t.holder = none → t.shared = u) := by
  obtain ⟨parts, u, hparts, hserve, hstands⟩ :=
    houseCalls_implements.run hkept hrun htaken
  exact ⟨parts, u, hparts, hserve,
    fun hfree => (Guarded.stands_free hfree).mp hstands⟩

omit [StdSort] in
theorem threads_serialize_race :
    ∃ s es t, (@houseCalls StdSort.insertion).machine.run (Guarded.begin s) race =
        some (es, t) ∧ t.holder = none ∧ es.countP (toldDisposed 1) = 1 ∧
      ∃ parts u,
        List.Forall₂ (Guarded.Meets Serves Drops Restarts CanCount) es parts ∧
        (@machine StdSort.insertion).run s
          (parts.flatten.map Machine.Event.input) = some (parts.flatten, u) ∧
        (t.holder = none → t.shared = u) := by
  obtain ⟨s, es, t, -, hrun, hgoes⟩ := exists_race
  exact ⟨s, es, t, hrun, hgoes.free, hgoes.once,
    @threads_serialize StdSort.insertion s CanCount (fun _ _ h => h) race es t
      hrun hgoes.taken⟩

/-! ## Buyers at the same time -/

omit [StdSort] in
/-- What a thread is told, the server has done. -/
theorem exists_disposes {K : Server → Prop} {id : UInt64} {e : ThreadEvent}
    {part : List ServerEvent} (h : Guarded.Meets Serves Drops Restarts K e part)
    (htold : toldDisposed id e = true) : ∃ e' ∈ part, disposes id e' = true := by
  obtain ⟨before, turn, out, after⟩ := e
  cases out with
  | returned i c r =>
      obtain ⟨⟨s, call, reply, s'⟩, rfl, ⟨hcall, rfl⟩, -⟩ := h
      refine ⟨_, List.mem_singleton_self _, ?_⟩
      cases call with
      | purchaseItem o now auctionId buyerId =>
          cases hcall
          cases reply with
          | purchased result =>
              cases result with
              | false => cases htold
              | true => exact htold
          | _ => simp [toldDisposed] at htold
      | cancelListing o auctionId sellerId =>
          cases hcall
          cases reply with
          | cancelled result =>
              rcases result with ex | _ | _
              · simp [toldDisposed] at htold
              · simp [toldDisposed] at htold
              · exact htold
          | _ => simp [toldDisposed] at htold
      | registerItem o now sellerId item price => cases hcall; cases htold
      | searchItems o criteria => cases hcall; cases htold
      | processExpiredItems o now order => cases hcall; cases htold
      | restart order failsAfter sellers => cases hcall
      | expireKey key => cases hcall
  | _ => cases htold

omit [StdSort] in
/-- The calls of the server are undisturbed when threads take the mutex before
the last id is reached, and restarts load everything. -/
theorem undisturbed_of_meets {e : ThreadEvent} {part : List ServerEvent}
    (h : Guarded.Meets Serves Drops Restarts CanCount e part)
    (hrestart : loadsAll e.output = true) :
    ∀ e' ∈ part, e'.before.Undisturbed e'.input := by
  have hserved : ∀ {c : Operation} {r : Reply} {e' : ServerEvent},
      Serves c r e'.input e'.output → CanCount e'.before →
        e'.before.Undisturbed e'.input := by
    rintro c r ⟨s, call, reply, s'⟩ ⟨hcall, -⟩ hcount
    cases call with
    | registerItem o now sellerId item price => exact hcount
    | restart order failsAfter sellers => cases hcall
    | _ => trivial
  obtain ⟨before, turn, out, after⟩ := e
  cases out with
  | going =>
      obtain rfl : part = [] := h
      simp
  | returned i c r =>
      obtain ⟨e', rfl, hserves, hcount⟩ := h
      intro e₀ he₀
      rw [List.mem_singleton.mp he₀]
      exact hserved hserves hcount
  | disturbed key =>
      obtain ⟨⟨s, call, reply, s'⟩, rfl, rfl, -⟩ := h
      intro e₀ he₀
      rw [List.mem_singleton.mp he₀]
      trivial
  | crashed x =>
      obtain ⟨cut, ⟨s, call, reply, s'⟩, rfl, ⟨rfl, -⟩, hcut⟩ := h
      intro e₀ he₀
      rcases List.mem_append.mp he₀ with he₀ | he₀
      · rcases hcut with rfl | ⟨i, c, m, r, call, -, rfl, hserves, hcount⟩
        · cases he₀
        · rw [List.mem_singleton.mp he₀]
          exact hserved hserves hcount
      · rw [List.mem_singleton.mp he₀]
        exact Option.isNone_iff_eq_none.mp hrestart

/-- However many threads ask for it at the same time, and wherever the process
dies in between, at most one of them is told that it sold or cancelled a
listing. -/
theorem threads_dispose_once {db : Database} {order : List AuctionDocument}
    {sellers : ℕ → ReadOutcome}
    (hdistinct : (db.auctions.map AuctionDocument.id).Nodup)
    (hlast : ∀ doc ∈ db.auctions, doc.id.toUInt64 ≠ -1)
    (hstart : Starts db order none sellers s)
    {turns : List (Guarded.Turn Operation Encounter String Startup)}
    {es : List ThreadEvent} {t : Guarded.Threads Server Operation CallProgress}
    (hrun : houseCalls.machine.run (Guarded.begin s) turns = some (es, t))
    (hids : ∀ e ∈ es, Guarded.Taken CanCount e)
    (hrestarts : ∀ e ∈ es, loadsAll e.output = true)
    (id : UInt64) : es.countP (toldDisposed id) ≤ 1 := by
  obtain ⟨parts, u, hparts, hserve, -⟩ :=
    houseCalls_implements.run (fun s key h => h) hrun hids
  have hcalls : ∀ e' ∈ parts.flatten, e'.before.Undisturbed e'.input := by
    intro e' he'
    obtain ⟨e, he, part, hmeets, hmem⟩ := Machine.exists_meets_of_mem hparts he'
    exact undisturbed_of_meets hmeets (hrestarts e he) e' hmem
  calc
    es.countP (toldDisposed id) ≤ parts.flatten.countP (disposes id) :=
      Machine.countP_le_countP_flatten
        (fun e part hmeets htold => exists_disposes hmeets htold) hparts
    _ ≤ 1 := by
      refine Machine.run_countP_le_one orderly_preserves (settled_preserves id)
        ?_ ?_ hserve hcalls (hstart.orderly hdistinct hlast)
      · intro e hfires _ horderly hdisposes hsettled
        obtain ⟨⟨old, hitem, hactive⟩, -⟩ :=
          disposes_spec hfires horderly hdisposes
        exact hsettled.entry old hitem hactive
      · intro e hfires _ horderly hdisposes
        exact (disposes_spec hfires horderly hdisposes).2

omit [StdSort] in
theorem threads_dispose_once_race :
    ∃ s es t, (@houseCalls StdSort.insertion).machine.run (Guarded.begin s) race =
        some (es, t) ∧
      es.countP (toldDisposed 1) = 1 ∧ es.countP (toldDisposed 1) ≤ 1 := by
  obtain ⟨s, es, t, hstart, hrun, hgoes⟩ := exists_race
  exact ⟨s, es, t, hrun, hgoes.once,
    @threads_dispose_once StdSort.insertion s market [] (fun _ => .answered)
      (by decide) (by decide) hstart race es t hrun hgoes.taken hgoes.restarts 1⟩

end Server
end AuctionServer
