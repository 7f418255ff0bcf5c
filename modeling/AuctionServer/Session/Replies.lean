import AuctionServer.Session.Handlers
import AuctionServer.Support.Machine

/-!
# One reply for every message

Every exit of `process_message` queues one reply: an exception can only come
before it, and then a `catch` clause replies instead.  Completed writes take
the replies off the queue in the order they were put on it.
-/

namespace AuctionServer

/-- One reply is handed to `send`. -/
def Writer.SendsOne (before after : Writer) : Prop :=
  ∃ message, after = before.send message

namespace ClientSession

open Program

variable {σ α : Type}

/-- The handler queues one reply, or raises an exception and queues none. -/
abbrev Replies (p : Handler σ α) : Prop :=
  Once writerOf Writer.SendsOne p

/-! ## What replies -/

variable [JsonText]

omit [JsonText] in
theorem replies_reply (message : Bytes) :
    Replies (reply message : Handler σ Unit) :=
  once_change fun _ => ⟨message, rfl⟩

theorem replies_sendError (message : Bytes) :
    Replies (sendError message : Handler σ Unit) :=
  (keeps_dump _).bind_once fun dumped => replies_reply dumped

theorem replies_sendSuccess (data : Json) :
    Replies (sendSuccess data : Handler σ Unit) :=
  (keeps_dump _).bind_once fun dumped => replies_reply dumped

variable (c : Circumstances σ) (data : Json)

theorem replies_handleLogin : Replies (handleLogin c data) := by
  rw [handleLogin]
  apply Once.ite (replies_sendError _)
  apply (keeps_read _ _ _).bind_once
  intro username
  apply (keeps_read _ _ _).bind_once
  intro password
  apply Once.ite
  · apply logIn_keeps_writer.bind_once
    intro _
    apply currentUser_keeps.bind_once
    intro userId
    exact replies_sendSuccess _
  · exact replies_sendError _

theorem replies_handleRegisterItem : Replies (handleRegisterItem c data) := by
  rw [handleRegisterItem]
  apply Once.ite (replies_sendError _)
  apply (keeps_read _ _ _).bind_once
  intro itemId
  apply (keeps_read _ _ _).bind_once
  intro itemName
  apply (keeps_read _ _ _).bind_once
  intro price
  apply currentUser_keeps.bind_once
  intro userId
  apply (onHouse_keeps_writer _).bind_once
  intro auctionId
  exact Once.ite (replies_sendSuccess _) (replies_sendError _)

theorem replies_handleSearchItems : Replies (handleSearchItems c data) := by
  apply (onHouse_keeps_writer _).bind_once
  intro items
  exact replies_sendSuccess _

theorem replies_handleAuction
    (call : UInt64 → UInt32 → Program MessageException σ Bool)
    (success failure : String) :
    Replies (handleAuction call success failure data) := by
  rw [handleAuction]
  apply Once.ite (replies_sendError _)
  apply (keeps_read _ _ _).bind_once
  intro auctionId
  apply currentUser_keeps.bind_once
  intro userId
  apply (onHouse_keeps_writer _).bind_once
  intro succeeded
  exact Once.ite (replies_sendSuccess _) (replies_sendError _)

theorem replies_authenticatedOnly {handler : Handler σ Unit}
    (h : Replies handler) : Replies (authenticatedOnly handler) := by
  apply (keeps_look _).bind_once
  intro authenticated
  exact Once.ite (replies_sendError _) h

theorem replies_dispatch : Replies (dispatch c data) := by
  rw [dispatch]
  split
  · apply Once.ite (replies_handleLogin c data)
    apply Once.ite
      (replies_authenticatedOnly (replies_handleRegisterItem c data))
    apply Once.ite (replies_handleSearchItems c data)
    apply Once.ite (replies_authenticatedOnly (replies_handleAuction data _ _ _))
    apply Once.ite (replies_authenticatedOnly (replies_handleAuction data _ _ _))
    exact replies_sendError _
  · exact replies_sendError _

/-! ## What the `catch` clauses reply -/

/-- A reply in well-formed UTF-8 is sent without an exception. -/
theorem calm_sendError {message : Bytes} (h : utf8Valid message = true) :
    Calm (sendError message : Handler σ Unit) := by
  have hdumps : (Json.object
      [("status", text "error"), ("message", .string message)]).dumps =
        true := by
    have hstatus : utf8Valid (literal "error") = true :=
      utf8Valid_literal (by simp)
    simp [Json.dumps, Json.fieldsDump, text, h, hstatus]
  rw [sendError, dump, if_pos hdumps, ofExcept_ok_bind]
  rintro s e t ⟨⟩

theorem calm_recover (e : MessageException) :
    Calm (recover e : Handler σ Unit) := by
  cases e with
  | parseError => exact calm_sendError (utf8Valid_literal (by simp))
  | other => exact calm_sendError (utf8Valid_literal (by simp))

theorem replies_recover (e : MessageException) :
    Replies (recover e : Handler σ Unit) := by
  cases e with
  | parseError => exact replies_sendError _
  | other => exact replies_sendError _

/-- Whatever the message, `process_message` ends without an exception and has
queued one reply. -/
theorem processMessage_replies {message : Bytes} {exchange exchange' : Exchange σ}
    {r : Except MessageException Unit}
    (h : processMessage c message exchange = some (r, exchange')) :
    r = .ok () ∧ Writer.SendsOne exchange.session.writer
      exchange'.session.writer := by
  have hbody : Replies (do
      let data ← ofExcept (JsonText.parse message)
      dispatch c data : Handler σ Unit) :=
    (keeps_ofExcept _).bind_once fun data => replies_dispatch c data
  have honce := hbody.handle replies_recover
  obtain ⟨⟨a, hok⟩, hsent⟩ := honce.of_calm (calm_handle calm_recover) h
  exact ⟨hok, hsent⟩

end ClientSession

/-! ## One session as a machine -/

/-- A message arrives, or one of the outstanding writes is complete. -/
inductive SessionInput (σ : Type) where
  | deliver (c : Circumstances σ) (message : Bytes)
  | complete (k : ℕ) (error : Bool)

/-- How a message was processed, or which frame was written. -/
inductive SessionOutput where
  | processed (result : Except MessageException Unit)
  | written (frame : Bytes) (error : Bool)

/-- A house that refuses everything. -/
def HouseCalls.refusing {σ : Type} : HouseCalls σ where
  registerItem _ _ _ := pure 0
  searchItems _ := pure []
  purchaseItem _ _ := pure false
  cancelListing _ _ := pure false

namespace Exchange

variable {σ : Type} [JsonText]

/-- One step of a session. -/
def step (exchange : Exchange σ) :
    SessionInput σ → Option (SessionOutput × Exchange σ)
  | .deliver c message =>
      (ClientSession.processMessage c message exchange).map
        fun (result, exchange) => (.processed result, exchange)
  | .complete k error =>
      let session := exchange.session
      match session.writer.outstanding[k]? with
      | none => none
      | some frame =>
          some (.written frame error,
            { exchange with
              session :=
                { session with writer := session.writer.complete k error } })

/-- A session as a machine driven by messages and completions. -/
def machine : Machine (Exchange σ) (SessionInput σ) SessionOutput where
  step := step

/-- A recorded step with the states around it. -/
abbrev Event (σ : Type) : Type :=
  Machine.Event (Exchange σ) (SessionInput σ) SessionOutput

/-- The replies an event has put on the queue. -/
def queued (e : Event σ) : List Bytes :=
  match e.input with
  | .deliver _ _ =>
      e.after.session.writer.writeQueue.drop
        e.before.session.writer.writeQueue.length
  | .complete _ _ => []

/-- The frame an event has completed without an error. -/
def completed (e : Event σ) : List Bytes :=
  match e.output with
  | .written frame false => [frame]
  | _ => []

/-- The event is a write error. -/
def failed (e : Event σ) : Bool :=
  match e.output with
  | .written _ true => true
  | _ => false

/-- What an event does to the writer: a message queues one reply, and a write
that completes is the only one and is of the front of the queue. -/
inductive Writes (e : Event σ) : Prop
  | message (c : Circumstances σ) (message reply : Bytes)
      (hinput : e.input = .deliver c message)
      (houtput : e.output = .processed (.ok ()))
      (hwriter : e.after.session.writer = e.before.session.writer.send reply)
  | completion (k : ℕ) (error : Bool) (front : Bytes) (rest : List Bytes)
      (hinput : e.input = .complete k error)
      (houtput : e.output = .written (Protocol.framing.frame front) error)
      (hqueue : e.before.session.writer.writeQueue = front :: rest)
      (hafter : e.after.session.writer.writeQueue = rest)

theorem step_complete {exchange after : Exchange σ} {k : ℕ} {error : Bool}
    {output : SessionOutput}
    (h : exchange.step (.complete k error) = some (output, after)) :
    ∃ frame, exchange.session.writer.outstanding[k]? = some frame ∧
      output = .written frame error ∧
      after.session.writer = exchange.session.writer.complete k error := by
  simp only [step] at h
  split at h
  · cases h
  · next frame hframe =>
      cases h
      exact ⟨frame, hframe, rfl, rfl⟩

/-- The writer writes the front of its queue before the event and after it. -/
theorem fires_writes {e : Event σ} (hfires : machine.Fires e)
    (h : e.before.session.writer.WritesFront) :
    Writes e ∧ e.after.session.writer.WritesFront := by
  obtain ⟨before, input, output, after⟩ := e
  cases input with
  | deliver c message =>
      obtain ⟨⟨result, exchange⟩, hprocess, heq⟩ :=
        Option.map_eq_some_iff.mp hfires
      obtain ⟨rfl, rfl⟩ := Prod.mk.inj heq
      obtain ⟨rfl, reply, hsent⟩ :=
        ClientSession.processMessage_replies c hprocess
      refine ⟨.message c message reply rfl rfl hsent, ?_⟩
      change exchange.session.writer.WritesFront
      rw [hsent]
      exact h.send reply
  | complete k error =>
      obtain ⟨frame, hframe, rfl, hwriter⟩ := step_complete hfires
      obtain ⟨⟨front, rest, hqueue, rfl, hrest⟩, hfront⟩ :=
        h.complete hframe error
      rw [← hwriter] at hrest hfront
      exact ⟨.completion k error front rest rfl rfl hqueue hrest, hfront⟩

/-! ## Whole runs -/

/-- The replies queued so far, as far as no write failed: those that were
written, framed and in order, and those that wait. -/
def InOrder (past : List (Event σ)) (exchange : Exchange σ) : Prop :=
  (∀ e ∈ past, failed e = false) →
    ∃ sent, past.flatMap completed = sent.map Protocol.framing.frame ∧
      past.flatMap queued = sent ++ exchange.session.writer.writeQueue

omit [JsonText] in
theorem queued_of_send {e : Event σ} {c : Circumstances σ}
    {message reply : Bytes} (hinput : e.input = .deliver c message)
    (hwriter : e.after.session.writer = e.before.session.writer.send reply) :
    queued e = [reply] := by
  simp [queued, hinput, hwriter, Writer.send_writeQueue]

omit [JsonText] in
theorem Writes.inOrder {past : List (Event σ)} {e : Event σ} (h : Writes e)
    (hpast : InOrder past e.before) : InOrder (past ++ [e]) e.after := by
  intro hfailed
  obtain ⟨sent, hcompleted, hqueued⟩ :=
    hpast fun e' he' => hfailed e' (List.mem_append_left _ he')
  have hlast : failed e = false := hfailed e (by simp)
  cases h with
  | message c message reply hinput houtput hwriter =>
      have hqueue : e.after.session.writer.writeQueue =
          e.before.session.writer.writeQueue ++ [reply] := by
        rw [hwriter, Writer.send_writeQueue]
      have hnew := queued_of_send hinput hwriter
      have hnone : completed e = [] := by
        simp [completed, houtput]
      refine ⟨sent, ?_, ?_⟩
      · simp [hcompleted, hnone]
      · simp [hqueued, hnew, hqueue]
  | completion k error front rest hinput houtput hqueue hafter =>
      have hsound : error = false := by
        rw [failed, houtput] at hlast
        cases error with
        | false => rfl
        | true => cases hlast
      subst error
      have hnew : queued e = [] := by
        simp [queued, hinput]
      have hdone : completed e = [Protocol.framing.frame front] := by
        simp [completed, houtput]
      refine ⟨sent ++ [front], ?_, ?_⟩
      · simp [hcompleted, hdone]
      · simp [hqueued, hnew, hqueue, hafter]

variable {exchange t : Exchange σ} {inputs : List (SessionInput σ)}
  {es : List (Event σ)}

theorem run_writes (hstart : exchange.session.writer = Writer.initial)
    (hrun : machine.run exchange inputs = some (es, t)) :
    t.session.writer.WritesFront ∧ ∀ e ∈ es,
      e.before.session.writer.WritesFront ∧
        e.after.session.writer.WritesFront := by
  have hkeep : Machine.Preserves (machine (σ := σ)) (fun _ => True)
      fun exchange => exchange.session.writer.WritesFront :=
    fun _ hfires _ hfront => (fires_writes hfires hfront).2
  apply Machine.run_invariant hkeep hrun (fun _ _ => trivial)
  rw [hstart]
  exact Writer.writesFront_initial

theorem run_inOrder (hstart : exchange.session.writer = Writer.initial)
    (hrun : machine.run exchange inputs = some (es, t)) :
    InOrder es t ∧ ∀ past e rest, es = past ++ e :: rest →
      InOrder past e.before := by
  have hfronts := (run_writes hstart hrun).2
  apply Machine.run_history (G := fun e => e.before.session.writer.WritesFront)
    ?_ hrun (fun e he => (hfronts e he).1)
  · intro _
    exact ⟨[], rfl, by rw [hstart]; rfl⟩
  · intro past e hfires hfront hpast
    exact (fires_writes hfires hfront).1.inOrder hpast

/-- Every frame completed before the first write error is the frame of a
reply, and no reply is left out, repeated or overtaken. -/
theorem run_completed_prefix (hstart : exchange.session.writer = Writer.initial)
    (hrun : machine.run exchange inputs = some (es, t)) :
    (es.takeWhile fun e => !failed e).flatMap completed <+:
      (es.flatMap queued).map Protocol.framing.frame := by
  have hsound : ∀ e ∈ es.takeWhile (fun e => !failed e), failed e = false := by
    intro e he
    simpa using List.mem_takeWhile_imp he
  have hsplit : (es.takeWhile fun e => !failed e) ++
      (es.dropWhile fun e => !failed e) = es :=
    List.takeWhile_append_dropWhile
  obtain ⟨hlast, hbefore⟩ := run_inOrder hstart hrun
  have hpast : ∃ exchange, InOrder (es.takeWhile fun e => !failed e) exchange := by
    cases hrest : es.dropWhile (fun e => !failed e) with
    | nil =>
        rw [hrest, List.append_nil] at hsplit
        rw [hsplit]
        exact ⟨t, hlast⟩
    | cons e rest =>
        rw [hrest] at hsplit
        exact ⟨e.before, hbefore _ e rest hsplit.symm⟩
  obtain ⟨exchange', hinOrder⟩ := hpast
  obtain ⟨sent, hcompleted, hqueued⟩ := hinOrder hsound
  have hreplies : es.flatMap queued =
      (es.takeWhile fun e => !failed e).flatMap queued ++
        (es.dropWhile fun e => !failed e).flatMap queued := by
    conv_lhs => rw [← hsplit]
    exact List.flatMap_append
  rw [hcompleted, hreplies, hqueued, List.append_assoc, List.map_append]
  exact List.prefix_append _ _

/-- In every run of a session each message is answered by one reply, writes
are made one at a time and of the front of the queue, and the replies are
written in the order of their messages until a write fails. -/
theorem one_reply_per_message
    (hstart : exchange.session.writer = Writer.initial)
    (hrun : machine.run exchange inputs = some (es, t)) :
    (∀ e ∈ es,
      (∀ c message, e.input = .deliver c message →
        e.output = .processed (.ok ()) ∧
          ∃ reply, queued e = [reply] ∧ e.after.session.writer =
            e.before.session.writer.send reply) ∧
      (∀ k error, e.input = .complete k error →
        e.before.session.writer.writeQueue ≠ []) ∧
      e.before.session.writer.outstanding.length ≤ 1 ∧
      e.after.session.writer.outstanding.length ≤ 1) ∧
    (es.takeWhile fun e => !failed e).flatMap completed <+:
      (es.flatMap queued).map Protocol.framing.frame ∧
    ((∀ e ∈ es, failed e = false) → ∃ sent,
      es.flatMap completed = sent.map Protocol.framing.frame ∧
        es.flatMap queued = sent ++ t.session.writer.writeQueue) ∧
    ∀ (c : Circumstances σ) (message : Bytes), c.house.Answers →
      ∃ output after, machine.step t (.deliver c message) =
        some (output, after) := by
  refine ⟨?_, run_completed_prefix hstart hrun, (run_inOrder hstart hrun).1, ?_⟩
  · intro e he
    obtain ⟨hbefore, hafter⟩ := (run_writes hstart hrun).2 e he
    have hwrites := (fires_writes (Machine.run_fires hrun e he) hbefore).1
    refine ⟨?_, ?_, hbefore.outstanding_le_one, hafter.outstanding_le_one⟩
    · intro c message hinput
      cases hwrites with
      | message c' message' reply hinput' houtput hwriter =>
          exact ⟨houtput, reply, queued_of_send hinput' hwriter, hwriter⟩
      | completion k error front rest hinput' =>
          rw [hinput'] at hinput
          cases hinput
    · intro k error hinput
      cases hwrites with
      | message c message reply hinput' =>
          rw [hinput'] at hinput
          cases hinput
      | completion k error front rest hinput' houtput hqueue =>
          rw [hqueue]
          exact List.cons_ne_nil front rest
  · intro c message hanswers
    obtain ⟨r, after, hprocess⟩ :=
      ClientSession.defined_processMessage message hanswers t
    exact ⟨.processed r, after, by simp [machine, step, hprocess]⟩

omit [JsonText] in
/-- A malformed message, and the completion of the reply to it. -/
theorem one_reply_per_message_malformed :
    ∃ es t, (@machine Unit (JsonText.sample [])).run
        { session := ⟨0, false, Writer.initial⟩, house := () }
        [.deliver { house := .refusing, now := 0, unset := default }
          (literal "login"), .complete 0 false] = some (es, t) ∧
      (es.takeWhile fun e => !failed e).flatMap completed <+:
        (es.flatMap queued).map Protocol.framing.frame := by
  have hsome : ((@machine Unit (JsonText.sample [])).run
      { session := ⟨0, false, Writer.initial⟩, house := () }
      [.deliver { house := .refusing, now := 0, unset := default }
        (literal "login"), .complete 0 false]).isSome = true := by
    decide +kernel
  obtain ⟨⟨es, t⟩, hrun⟩ := Option.isSome_iff_exists.mp hsome
  exact ⟨es, t, hrun,
    (@one_reply_per_message Unit (JsonText.sample []) _ _ _ _ rfl hrun).2.1⟩

end Exchange
end AuctionServer
