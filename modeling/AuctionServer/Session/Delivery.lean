import AuctionServer.Session.Connections

/-!
# What a client gets back

Between a client and its session stand the pieces in which bytes arrive and
leave, the variable the headers of all sessions go through, and the handlers of
the other sessions.  As long as the header handlers of a session find the
header of their own session, none of this shows: the session processes the
messages of its client in order, and its client reads their replies in order.
-/

namespace AuctionServer

theorem TestClient.sizeOf_headerOf (n : ℕ) (hn : n ≤ 2 ^ 32 - 1) :
    (Protocol.ntohl (Protocol.sizeOf (Protocol.headerOf n))).toNat = n := by
  rw [Protocol.headerOf, Protocol.sizeOf_ofFn, Protocol.ntohl_htonl,
    UInt32.toNat_ofNat_of_lt' (by rw [UInt32.size]; omega)]

/-- The framing a test client reads replies with: the header of the protocol,
and no limit. -/
def TestClient.framing : Framing UInt8 where
  width := 4
  limit := 2 ^ 32 - 1
  encode := Protocol.headerOf
  decode header := (Protocol.ntohl (Protocol.sizeOf header)).toNat
  width_pos := Protocol.framing.width_pos
  length_encode := Protocol.framing.length_encode
  decode_encode := TestClient.sizeOf_headerOf
  encode_decode := Protocol.framing.encode_decode

/-- A client expects what a session writes. -/
theorem TestClient.frames_eq (bodies : List Bytes) :
    TestClient.framing.frames bodies = Protocol.framing.frames bodies := rfl

namespace Connections

variable {ι σ : Type}

/-- The bytes an event brings from the client. -/
def heardOf : SocketEvent σ → Bytes
  | .arrive piece => piece
  | _ => []

/-- The messages that are processed. -/
def messagesOf : SocketResult → List Bytes
  | .processed message _ => [message]
  | _ => []

/-- The replies that are queued. -/
def repliesOf (before after : Connection) : List Bytes :=
  after.session.writer.writeQueue.drop before.session.writer.writeQueue.length

variable [DecidableEq ι]

/-- The bytes a client has sent. -/
def heard (id : ι) (e : Event ι σ) : Bytes :=
  if e.input.1 = id then heardOf e.input.2 else []

/-- The messages of a client that were processed. -/
def messages (id : ι) (e : Event ι σ) : List Bytes :=
  if e.input.1 = id then messagesOf e.output else []

/-- The replies that were queued for a client. -/
def replies (id : ι) (e : Event ι σ) : List Bytes :=
  if e.input.1 = id then
    repliesOf (e.before.connection id) (e.after.connection id)
  else []

/-- The event is a header handler. -/
def handlesHeader : SocketEvent σ → Bool
  | .handleReadHeader => true
  | _ => false

/-- A header handler of the session finds the header of its own session. -/
def FindsHeader (id : ι) (e : Event ι σ) : Prop :=
  e.input.1 = id → handlesHeader e.input.2 = true →
    e.before.reading.HoldsHeader id

instance (r : Sessions ι) (id : ι) : Decidable (r.HoldsHeader id) :=
  inferInstanceAs (Decidable (_ ∨ _))

instance (id : ι) (e : Event ι σ) : Decidable (FindsHeader id e) :=
  inferInstanceAs (Decidable (_ → _ → _))

/-! ## The reading half -/

/-- The stream of a client is the messages that were processed, framed, and
behind them what the read that is under way has taken and the bytes that wait. -/
inductive Reads (stream : Bytes) (processed : List Bytes) (session : Session)
    (c : Connection) : Prop
  | header (hphase : session.phase = .header) (hbuffer : c.readBuffer = [])
      (hstream : stream = Protocol.framing.frames processed ++
        (session.header ++ c.arrived))
  | body (size : UInt32) (hphase : session.phase = .body size)
      (hheader : session.header.length = 4) (hown : size = session.announced)
      (hlimit : ¬ Protocol.maxMessageSize < size)
      (hcount : c.readBuffer.length = c.transferred)
      (hstream : stream = Protocol.framing.frames processed ++
        (session.header ++ (c.readBuffer ++ c.arrived)))
  | closed (tooLarge : Bool) (rest : Bytes)
      (hphase : session.phase = .closed tooLarge) (hclosed : c.isOpen = false)
      (hstream : stream = Protocol.framing.frames processed ++ rest)

/-- The messages that were processed are within the limit. -/
def Fit (processed : List Bytes) : Prop :=
  ∀ message ∈ processed, message.length ≤ Protocol.framing.limit

variable {stream : Bytes} {processed : List Bytes} {session : Session}
  {c c' : Connection}

/-- What the reading half looks at is as before, or the socket was closed. -/
theorem Reads.congr (h : Reads stream processed session c)
    (hbuffer : c'.readBuffer = c.readBuffer) (harrived : c'.arrived = c.arrived)
    (hcount : c'.transferred = c.transferred)
    (hclosed : c.isOpen = false → c'.isOpen = false) :
    Reads stream processed session c' := by
  cases h with
  | header hphase hempty hstream =>
      refine .header hphase (hbuffer.trans hempty) ?_
      rw [harrived, hstream]
  | body size hphase hheader hown hlimit hfilled hstream =>
      refine .body size hphase hheader hown hlimit ?_ ?_
      · rw [hbuffer, hcount, hfilled]
      · rw [hbuffer, harrived, hstream]
  | closed tooLarge rest hphase hopen hstream =>
      exact .closed tooLarge rest hphase (hclosed hopen) hstream

/-- More bytes arrive. -/
theorem Reads.arrive (h : Reads stream processed session c) (piece : Bytes) :
    Reads (stream ++ piece) processed session
      { c with arrived := c.arrived ++ piece } := by
  cases h with
  | header hphase hempty hstream =>
      exact .header hphase hempty (by simp [hstream])
  | body size hphase hheader hown hlimit hfilled hstream =>
      exact .body size hphase hheader hown hlimit hfilled (by simp [hstream])
  | closed tooLarge rest hphase hopen hstream =>
      exact .closed tooLarge (rest ++ piece) hphase hopen (by simp [hstream])

/-- A session that stops leaves the rest of the stream behind. -/
theorem Reads.stop (h : Reads stream processed session c) (tooLarge : Bool) :
    Reads stream processed { session with phase := .closed tooLarge }
      { c with isOpen := false } := by
  cases h with
  | header hphase hempty hstream => exact .closed tooLarge _ rfl rfl hstream
  | body size hphase hheader hown hlimit hfilled hstream =>
      exact .closed tooLarge _ rfl rfl hstream
  | closed tooLarge' rest hphase hopen hstream =>
      exact .closed tooLarge rest rfl rfl hstream

/-- A header and as many bytes as it announces are a frame. -/
theorem frame_of_announced {message : Bytes} (hheader : session.header.length = 4)
    (hlength : message.length = session.announced.toNat) :
    Protocol.framing.frame message = session.header ++ message := by
  have hencode := Protocol.framing.encode_decode session.header hheader
  rw [Framing.frame, hlength]
  exact congrArg (· ++ message) hencode

variable {s s' : Connections ι σ} {id : ι} {event : SocketEvent σ}
  {result : SocketResult}

omit [DecidableEq ι] in
/-- An event keeps the account of the stream. -/
theorem Moves.reads [JsonText] (h : Moves s s' id event result)
    (hfinds : event = .handleReadHeader → s.reading.HoldsHeader id)
    (hreads : Reads stream processed (s.reading.session id) (s.connection id))
    (hfit : Fit processed) :
    Reads (stream ++ heardOf event) (processed ++ messagesOf result)
        (s'.reading.session id) (s'.connection id) ∧
      Fit (processed ++ messagesOf result) := by
  cases h with
  | arrive piece hsession hconnection =>
      rw [hsession, hconnection]
      simp only [messagesOf, List.append_nil]
      exact ⟨hreads.arrive piece, hfit⟩
  | readHeader n hpos hphase hfits hn hsession hconnection =>
      rw [hsession, hconnection]
      simp only [heardOf, messagesOf, List.append_nil]
      refine ⟨?_, hfit⟩
      cases hreads with
      | header hphase' hempty hstream =>
          refine .header rfl hempty ?_
          simp [hstream]
      | body size hphase' => simp [hphase] at hphase'
      | closed tooLarge rest hphase' => simp [hphase] at hphase'
  | readBody n size hpos hphase hfits hn hsession hconnection =>
      rw [hsession, hconnection]
      simp only [heardOf, messagesOf, List.append_nil]
      refine ⟨?_, hfit⟩
      cases hreads with
      | header hphase' => simp [hphase] at hphase'
      | body size' hphase' hheader hown hlimit hfilled hstream =>
          refine .body size' hphase' hheader hown hlimit ?_ ?_
          · rw [List.length_append, hfilled, List.length_take_of_le hn]
          · simp [hstream]
      | closed tooLarge rest hphase' => simp [hphase] at hphase'
  | tooLarge size hphase hheader hsession hconnection =>
      rw [hsession, hconnection]
      simp only [heardOf, messagesOf, List.append_nil]
      exact ⟨hreads.stop true, hfit⟩
  | readingBody hphase hheader hlimit hsession hconnection =>
      rw [hsession, hconnection]
      simp only [heardOf, messagesOf, List.append_nil]
      refine ⟨?_, hfit⟩
      cases hreads with
      | header hphase' hempty hstream =>
          refine .body _ rfl hheader ?_ hlimit ?_ ?_
          · rcases hfinds rfl with hsame | ⟨hlarge, -⟩
            · rw [hsame]
              rfl
            · exact (hlimit hlarge).elim
          · simp [hempty]
          · simp [hstream, hempty]
      | body size hphase' => simp [hphase] at hphase'
      | closed tooLarge rest hphase' => simp [hphase] at hphase'
  | message c size message reply exchange hphase hmessage hlength hprocess hreply
      hsession hconnection hhouse =>
      rw [hsession, hconnection]
      simp only [heardOf, messagesOf, List.append_nil]
      cases hreads with
      | header hphase' => simp [hphase] at hphase'
      | body size' hphase' hheader hown hlimit hfilled hstream =>
          obtain rfl : size = size' := Phase.body.inj (hphase.symm.trans hphase')
          rw [← hfilled, List.take_length] at hmessage
          subst message
          rw [hown] at hlength
          constructor
          · refine .header rfl (by simp [← hfilled]) ?_
            rw [Framing.frames_append, Framing.frames_cons, Framing.frames_nil,
              frame_of_announced hheader hlength, hstream]
            simp [Session.started]
          · intro body hbody
            rcases List.mem_append.mp hbody with hold | hnew
            · exact hfit body hold
            · obtain rfl := List.mem_singleton.mp hnew
              rw [hlength, ← hown]
              exact Nat.not_lt.mp fun hlarge =>
                hlimit (UInt32.lt_iff_toNat_lt.mpr hlarge)
      | closed tooLarge rest hphase' => simp [hphase] at hphase'
  | readError hwaits hsession hconnection =>
      rw [hsession, hconnection]
      simp only [heardOf, messagesOf, List.append_nil]
      exact ⟨hreads.stop false, hfit⟩
  | transmit n frame hpos hframe hopen hfits hsession hconnection =>
      rw [hsession, hconnection]
      simp only [heardOf, messagesOf, List.append_nil]
      exact ⟨hreads.congr rfl rfl rfl fun hclosed => hclosed, hfit⟩
  | handleWrite error frame hframe herror hsession hconnection =>
      rw [hsession, hconnection]
      simp only [heardOf, messagesOf, List.append_nil]
      refine ⟨hreads.congr rfl rfl rfl fun hclosed => ?_, hfit⟩
      simp [hclosed]

/-! ## The writing half -/

/-- The socket has got the replies that were taken off the queue, framed, and a
part of the frame of the reply in front.  Once it is closed, it has got a front
of the framed replies. -/
inductive Delivers (answers : List Bytes) (c : Connection) : Prop
  | idle (hopen : c.isOpen = true) (hwriting : c.session.writer.isWriting = false)
      (hqueue : c.session.writer.writeQueue = [])
      (hnone : c.session.writer.outstanding = []) (hprogress : c.progress = 0)
      (htransmitted : c.transmitted = Protocol.framing.frames answers)
  | writing (done : List Bytes) (front : Bytes) (rest : List Bytes)
      (hopen : c.isOpen = true) (hwriting : c.session.writer.isWriting = true)
      (hqueue : c.session.writer.writeQueue = front :: rest)
      (houtstanding : c.session.writer.outstanding =
        [Protocol.framing.frame front])
      (hprogress : c.progress ≤ (Protocol.framing.frame front).length)
      (hanswers : answers = done ++ front :: rest)
      (htransmitted : c.transmitted = Protocol.framing.frames done ++
        (Protocol.framing.frame front).take c.progress)
  | closed (hclosed : c.isOpen = false) (hfront : c.session.writer.WritesFront)
      (hbegins : c.transmitted <+: Protocol.framing.frames answers)

variable {answers : List Bytes}

/-- A session writes the front of its queue. -/
theorem Delivers.front (h : Delivers answers c) :
    c.session.writer.WritesFront := by
  cases h with
  | idle hopen hwriting hqueue hnone => exact .idle hwriting hnone
  | writing done front rest hopen hwriting hqueue houtstanding =>
      exact .writing front rest hwriting hqueue houtstanding
  | closed hclosed hfront => exact hfront

/-- What the socket has got is a front of the framed replies. -/
theorem Delivers.transmitted_prefix (h : Delivers answers c) :
    c.transmitted <+: Protocol.framing.frames answers := by
  cases h with
  | idle hopen hwriting hqueue hnone hprogress htransmitted =>
      rw [htransmitted]
  | writing done front rest hopen hwriting hqueue houtstanding hprogress hanswers
      htransmitted =>
      rw [htransmitted, hanswers, Framing.frames_append, Framing.frames_cons]
      apply (List.prefix_append_right_inj _).mpr
      exact (List.take_prefix _ _).trans (List.prefix_append _ _)
  | closed hclosed hfront hbegins => exact hbegins

/-- What the writing half looks at is as before, or the socket was closed. -/
theorem Delivers.congr (h : Delivers answers c)
    (hwriter : c'.session.writer = c.session.writer)
    (htransmitted : c'.transmitted = c.transmitted)
    (hprogress : c'.progress = c.progress)
    (hopen : c'.isOpen = c.isOpen ∨ c'.isOpen = false) :
    Delivers answers c' := by
  rcases hopen with hsame | hclosed
  · cases h with
    | idle hopen hwriting hqueue hnone hzero hdone =>
        exact .idle (hsame.trans hopen) (by rw [hwriter, hwriting])
          (by rw [hwriter, hqueue]) (by rw [hwriter, hnone])
          (hprogress.trans hzero) (htransmitted.trans hdone)
    | writing done front rest hopen hwriting hqueue houtstanding hle hanswers
        hpart =>
        refine .writing done front rest (hsame.trans hopen)
          (by rw [hwriter, hwriting]) (by rw [hwriter, hqueue])
          (by rw [hwriter, houtstanding]) ?_ hanswers ?_
        · rw [hprogress]
          exact hle
        · rw [hprogress, htransmitted, hpart]
    | closed hclosed hfront hbegins =>
        refine .closed (hsame.trans hclosed) ?_ ?_
        · rw [hwriter]
          exact hfront
        · rw [htransmitted]
          exact hbegins
  · refine .closed hclosed ?_ ?_
    · rw [hwriter]
      exact h.front
    · rw [htransmitted]
      exact h.transmitted_prefix

/-- A reply is queued. -/
theorem Delivers.send (h : Delivers answers c) (reply : Bytes)
    (hwriter : c'.session.writer = c.session.writer.send reply)
    (htransmitted : c'.transmitted = c.transmitted)
    (hprogress : c'.progress = c.progress) (hopen : c'.isOpen = c.isOpen) :
    Delivers (answers ++ [reply]) c' := by
  cases h with
  | idle hopen' hwriting hqueue hnone hzero hdone =>
      have hsent : c'.session.writer = ⟨[reply], true,
          [Protocol.framing.frame reply]⟩ := by
        rw [hwriter, Writer.send, hwriting, Writer.write]
        simp [hqueue, hnone]
      rw [hzero] at hprogress
      refine .writing answers reply [] (hopen.trans hopen') (by rw [hsent])
        (by rw [hsent]) (by rw [hsent]) ?_ rfl ?_
      · rw [hprogress]
        exact Nat.zero_le _
      · rw [hprogress, htransmitted, hdone, List.take_zero, List.append_nil]
  | writing done front rest hopen' hwriting hqueue houtstanding hle hanswers
      hpart =>
      have hsent : c'.session.writer =
          { c.session.writer with
            writeQueue := c.session.writer.writeQueue ++ [reply] } := by
        rw [hwriter, Writer.send, if_pos hwriting]
      refine .writing done front (rest ++ [reply]) (hopen.trans hopen')
        (by rw [hsent, hwriting]) (by rw [hsent, hqueue]; rfl)
        (by rw [hsent, houtstanding]) ?_ (by rw [hanswers]; simp) ?_
      · rw [hprogress]
        exact hle
      · rw [hprogress, htransmitted, hpart]
  | closed hclosed hfront hbegins =>
      refine .closed (hopen.trans hclosed) ?_ ?_
      · rw [hwriter]
        exact hfront.send reply
      · rw [htransmitted, Framing.frames_append]
        exact hbegins.trans (List.prefix_append _ _)

/-- More of the outstanding frame is put on the socket. -/
theorem Delivers.transmit (h : Delivers answers c) {n : ℕ} {frame : Bytes}
    (hframe : c.session.writer.outstanding[0]? = some frame)
    (hopen : c.isOpen = true) (hfits : c.progress + n ≤ frame.length) :
    Delivers answers
      { c with
        transmitted := c.transmitted ++ (frame.drop c.progress).take n
        progress := c.progress + n } := by
  cases h with
  | idle hopen' hwriting hqueue hnone => simp [hnone] at hframe
  | writing done front rest hopen' hwriting hqueue houtstanding hle hanswers
      hpart =>
      obtain rfl : Protocol.framing.frame front = frame := by
        simpa [houtstanding] using hframe
      refine .writing done front rest hopen hwriting hqueue houtstanding hfits
        hanswers ?_
      simp only [hpart, List.append_assoc, List.take_add]
  | closed hclosed => simp [hopen] at hclosed

/-- The outstanding write is complete: its reply is delivered, or the socket is
closed. -/
theorem Delivers.handleWrite (h : Delivers answers c) {error : Bool}
    {frame : Bytes} (hframe : c.session.writer.outstanding[0]? = some frame)
    (herror : error = decide (c.progress < frame.length)) :
    Delivers answers
      { c with
        session := { c.session with writer := c.session.writer.complete 0 error }
        isOpen := c.isOpen && !error
        progress := 0 } := by
  obtain ⟨-, hfront⟩ := h.front.complete hframe error
  have hbegins := h.transmitted_prefix
  by_cases hstay : (c.isOpen && !error) = true
  · obtain ⟨hopen, hsound⟩ := Bool.and_eq_true_iff.mp hstay
    obtain rfl : error = false := by
      simpa using hsound
    cases h with
    | idle hopen' hwriting hqueue hnone => simp [hnone] at hframe
    | writing done front rest hopen' hwriting hqueue houtstanding hle hanswers
        hpart =>
        obtain rfl : Protocol.framing.frame front = frame := by
          simpa [houtstanding] using hframe
        have hall : c.progress = (Protocol.framing.frame front).length := by
          have hnot : ¬ c.progress < (Protocol.framing.frame front).length := by
            simpa using herror
          omega
        have hdone : c.transmitted =
            Protocol.framing.frames (done ++ [front]) := by
          rw [hpart, hall, List.take_length, Framing.frames_append,
            Framing.frames_cons, Framing.frames_nil, List.append_nil]
        cases rest with
        | nil =>
            refine .idle hstay ?_ ?_ ?_ rfl ?_
            · simp [Writer.complete, Writer.handleWrite, hqueue]
            · simp [Writer.complete, Writer.handleWrite, hqueue]
            · simp [Writer.complete, Writer.handleWrite, hqueue, houtstanding]
            · rw [hanswers]
              exact hdone
        | cons next rest =>
            refine .writing (done ++ [front]) next rest hstay ?_ ?_ ?_
              (Nat.zero_le _) (by simp [hanswers]) ?_
            · simp [Writer.complete, Writer.handleWrite, Writer.write, hqueue]
            · simp [Writer.complete, Writer.handleWrite, Writer.write, hqueue]
            · simp [Writer.complete, Writer.handleWrite, Writer.write, hqueue,
                houtstanding]
            · rw [List.take_zero, List.append_nil]
              exact hdone
    | closed hclosed => simp [hopen] at hclosed
  · exact .closed (Bool.eq_false_of_not_eq_true hstay) hfront hbegins

omit [DecidableEq ι] in
/-- An event keeps the account of the replies. -/
theorem Moves.delivers [JsonText] (h : Moves s s' id event result)
    (hdelivers : Delivers answers (s.connection id)) :
    Delivers (answers ++ repliesOf (s.connection id) (s'.connection id))
        (s'.connection id) ∧
      (repliesOf (s.connection id) (s'.connection id)).length =
        (messagesOf result).length := by
  have hquiet : (s'.connection id).session.writer =
      (s.connection id).session.writer →
      repliesOf (s.connection id) (s'.connection id) = [] := by
    intro hsame
    rw [repliesOf, hsame, List.drop_length]
  cases h with
  | arrive piece hsession hconnection =>
      rw [hquiet (by rw [hconnection]), hconnection, List.append_nil]
      exact ⟨hdelivers.congr rfl rfl rfl (Or.inl rfl), rfl⟩
  | readHeader n hpos hphase hfits hn hsession hconnection =>
      rw [hquiet (by rw [hconnection]), hconnection, List.append_nil]
      exact ⟨hdelivers.congr rfl rfl rfl (Or.inl rfl), rfl⟩
  | readBody n size hpos hphase hfits hn hsession hconnection =>
      rw [hquiet (by rw [hconnection]), hconnection, List.append_nil]
      exact ⟨hdelivers.congr rfl rfl rfl (Or.inl rfl), rfl⟩
  | tooLarge size hphase hheader hsession hconnection =>
      rw [hquiet (by rw [hconnection]), hconnection, List.append_nil]
      exact ⟨hdelivers.congr rfl rfl rfl (Or.inr rfl), rfl⟩
  | readingBody hphase hheader hlimit hsession hconnection =>
      rw [hquiet (by rw [hconnection]), hconnection, List.append_nil]
      exact ⟨hdelivers.congr rfl rfl rfl (Or.inl rfl), rfl⟩
  | message c size message reply exchange hphase hmessage hlength hprocess hreply
      hsession hconnection hhouse =>
      have hnew : repliesOf (s.connection id) (s'.connection id) = [reply] := by
        rw [repliesOf, hconnection, hreply, Writer.send_writeQueue,
          List.drop_left]
      rw [hnew, hconnection]
      exact ⟨hdelivers.send reply hreply rfl rfl rfl, rfl⟩
  | readError hwaits hsession hconnection =>
      rw [hquiet (by rw [hconnection]), hconnection, List.append_nil]
      exact ⟨hdelivers.congr rfl rfl rfl (Or.inr rfl), rfl⟩
  | transmit n frame hpos hframe hopen hfits hsession hconnection =>
      rw [hquiet (by rw [hconnection]), hconnection, List.append_nil]
      exact ⟨hdelivers.transmit hframe hopen hfits, rfl⟩
  | handleWrite error frame hframe herror hsession hconnection =>
      have hnone : repliesOf (s.connection id) (s'.connection id) = [] := by
        rw [repliesOf, hconnection]
        apply List.drop_eq_nil_of_le
        rw [Writer.complete, Writer.handleWrite_writeQueue, List.length_tail]
        exact Nat.sub_le _ _
      rw [hnone, hconnection, List.append_nil]
      exact ⟨hdelivers.handleWrite hframe herror, rfl⟩

/-! ## Whole runs -/

section Runs

variable [JsonText]

/-- A message of the client was processed, and this is the reply to it. -/
def Exchanges (id : ι) (e : Event ι σ) (message reply : Bytes) : Prop :=
  ∃ (c : Circumstances σ) (exchange : Exchange σ),
    e.input = (id, .handleReadBody c) ∧
    ClientSession.processMessage c message
      ⟨(e.before.connection id).session, e.before.house⟩ =
        some (.ok (), exchange) ∧
    exchange.session.writer =
      (e.before.connection id).session.writer.send reply ∧
    (e.after.connection id).session = exchange.session ∧
    e.after.house = exchange.house

/-- Whatever happens, no message goes without a reply and no reply comes
without a message. -/
theorem fires_exchanges {e : Event ι σ} (hfires : machine.Fires e) (id : ι) :
    (messages id e = [] ∧ replies id e = []) ∨
      ∃ message reply, messages id e = [message] ∧ replies id e = [reply] ∧
        Exchanges id e message reply := by
  obtain ⟨s, ⟨id', event⟩, result, s'⟩ := e
  have hstep : s.step (id', event) = some (result, s') := hfires
  obtain ⟨hmoves, -⟩ := step_moves hstep
  by_cases hid : id' = id
  · subst id'
    simp only [messages, replies, if_true]
    cases hmoves with
    | message c size message reply exchange hphase hmessage hlength hprocess
        hreply hsession hconnection hhouse =>
        right
        refine ⟨message, reply, rfl, ?_, c, exchange, rfl, hprocess, hreply, ?_,
          hhouse⟩
        · rw [repliesOf, hconnection, hreply, Writer.send_writeQueue,
            List.drop_left]
        · exact congrArg Connection.session hconnection
    | handleWrite error frame hframe herror hsession hconnection =>
        left
        refine ⟨rfl, ?_⟩
        rw [repliesOf, hconnection]
        apply List.drop_eq_nil_of_le
        rw [Writer.complete, Writer.handleWrite_writeQueue, List.length_tail]
        exact Nat.sub_le _ _
    | _ => left; simp_all [messagesOf, repliesOf]
  · left
    simp [messages, replies, hid]

/-- What has become of the stream of a client and of the replies to it. -/
structure Accounts (id : ι) (past : List (Event ι σ)) (s : Connections ι σ) :
    Prop where
  reads : Reads (past.flatMap (heard id)) (past.flatMap (messages id))
    (s.reading.session id) (s.connection id)
  fit : Fit (past.flatMap (messages id))
  delivers : Delivers (past.flatMap (replies id)) (s.connection id)

omit [JsonText] in
theorem accounts_start (id : ι) (house : σ) : Accounts id [] (start house) where
  reads := .header rfl rfl rfl
  fit := by
    intro message hmessage
    cases hmessage
  delivers := .idle rfl rfl rfl rfl rfl rfl

/-- An event keeps the accounts of a session whose header handlers find its
own headers. -/
theorem Accounts.fires {past : List (Event ι σ)} {e : Event ι σ}
    (h : Accounts id past e.before) (hfires : machine.Fires e)
    (hfinds : FindsHeader id e) : Accounts id (past ++ [e]) e.after := by
  obtain ⟨s, ⟨id', event⟩, result, s'⟩ := e
  have hstep : s.step (id', event) = some (result, s') := hfires
  obtain ⟨hmoves, hothers⟩ := step_moves hstep
  by_cases hid : id' = id
  · subst id'
    obtain ⟨hreads, hfit⟩ := hmoves.reads
      (fun hevent => hfinds rfl (by rw [hevent]; rfl)) h.reads h.fit
    obtain ⟨hdelivers, -⟩ := hmoves.delivers h.delivers
    constructor
    · simpa [heard, messages] using hreads
    · simpa [messages] using hfit
    · simpa [replies] using hdelivers
  · obtain ⟨hconnection, hsession⟩ := hothers id (Ne.symm hid)
    constructor
    · simpa [heard, messages, hid, hconnection, hsession] using h.reads
    · simpa [messages, hid] using h.fit
    · simpa [replies, hid, hconnection] using h.delivers

variable {house : σ} {inputs : List (ι × SocketEvent σ)}
  {es : List (Event ι σ)} {t : Connections ι σ}

theorem run_accounts (hrun : machine.run (start house) inputs = some (es, t))
    (hfinds : ∀ e ∈ es, FindsHeader id e) : Accounts id es t :=
  (Machine.run_history (fun _ _ hfires he haccounts => haccounts.fires hfires he)
    hrun hfinds (accounts_start id house)).1

end Runs

/-- A connection has nothing left to do before more bytes arrive. -/
structure Settled (s : Connections ι σ) (id : ι) : Prop where
  isOpen : (s.connection id).isOpen = true
  arrived : (s.connection id).arrived = []
  written : (s.connection id).session.writer.outstanding = []
  header : (s.reading.session id).phase = .header →
    (s.reading.session id).header.length < 4
  body : (s.connection id).missing (s.reading.session id).phase = true

omit [DecidableEq ι] in
/-- The processed messages are the first the stream reads as. -/
theorem Reads.processed_prefix (h : Reads stream processed session c)
    (hfit : Fit processed) :
    processed <+: (Protocol.framing.read stream).1 := by
  have hread : ∀ rest, stream = Protocol.framing.frames processed ++ rest →
      processed <+: (Protocol.framing.read stream).1 := by
    rintro rest rfl
    rw [Framing.read_frames_append hfit]
    exact List.prefix_append _ _
  cases h with
  | header hphase hempty hstream => exact hread _ hstream
  | body size hphase hheader hown hlimit hcount hstream => exact hread _ hstream
  | closed tooLarge rest hphase hclosed hstream => exact hread _ hstream

omit [DecidableEq ι] in
/-- Once the session is settled there is no other message on the stream. -/
theorem Reads.settled (h : Reads stream processed (s.reading.session id)
    (s.connection id)) (hfit : Fit processed) (hsettled : Settled s id) :
    processed = (Protocol.framing.read stream).1 := by
  cases h with
  | header hphase hempty hstream =>
      have hshort := hsettled.header hphase
      rw [hsettled.arrived, List.append_nil] at hstream
      rw [hstream, Framing.read_frames_append hfit, Framing.read_of_short hshort,
        List.append_nil]
  | body size hphase hheader hown hlimit hcount hstream =>
      have hcut : (s.connection id).transferred < size.toNat := by
        simpa [Connection.missing, hphase] using hsettled.body
      have hlimit : size.toNat ≤ Protocol.maxMessageSize.toNat :=
        Nat.not_lt.mp fun hlarge => hlimit (UInt32.lt_iff_toNat_lt.mpr hlarge)
      rw [← hcount, hown] at hcut
      rw [hown] at hlimit
      rw [hsettled.arrived, List.append_nil] at hstream
      rw [hstream, Framing.read_frames_append hfit,
        Framing.read_of_cut hheader hlimit hcut, List.append_nil]
  | closed tooLarge rest hphase hclosed hstream =>
      simp [hsettled.isOpen] at hclosed

omit [DecidableEq ι] in
/-- Once the session is settled all replies are on the socket. -/
theorem Delivers.settled (h : Delivers answers (s.connection id))
    (hsettled : Settled s id) :
    (s.connection id).transmitted = Protocol.framing.frames answers := by
  cases h with
  | idle hopen hwriting hqueue hnone hprogress htransmitted => exact htransmitted
  | writing done front rest hopen hwriting hqueue houtstanding =>
      simp [hsettled.written] at houtstanding
  | closed hclosed => simp [hsettled.isOpen] at hclosed

end Connections
end AuctionServer
