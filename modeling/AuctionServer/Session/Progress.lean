import AuctionServer.Session.Delivery

/-!
# A connection comes to rest

Every event on a connection but the arrival of bytes does a part of the work
that is left there, and while a connection is open and not settled one of them
can happen.  Nothing the other connections do adds to the work.
-/

namespace AuctionServer
namespace Connections

variable {ι σ : Type}

/-! ## The work that is left -/

/-- What is left to read and to process.  A byte weighs most while it waits,
and least once it is processed. -/
def readingLeft (session : Session) (c : Connection) : ℕ :=
  3 * c.arrived.length +
    match session.phase with
    | .header => 1 + 2 * session.header.length
    | .body _ => 2 + 2 * c.transferred
    | .closed _ => 0

/-- What is left to write of the replies on the queue. -/
def writingLeft (c : Connection) : ℕ :=
  (c.session.writer.writeQueue.map fun reply =>
    (Protocol.framing.frame reply).length + 1).sum - c.progress

/-- The work that is left on a connection.  Messages come first, as they may
add replies of any length. -/
def workLeft (id : ι) (s : Connections ι σ) : ℕ ×ₗ ℕ :=
  toLex (readingLeft (s.reading.session id) (s.connection id),
    writingLeft (s.connection id))

/-! ## What every connection keeps -/

/-- The reading half holds what it has read, and no more than it reads. -/
structure Buffered (session : Session) (c : Connection) : Prop where
  header : session.phase = .header →
    session.header.length ≤ 4 ∧ c.readBuffer = []
  body : ∀ size, session.phase = .body size →
    c.readBuffer.length = c.transferred ∧ c.transferred ≤ size.toNat
  closed : ∀ tooLarge, session.phase = .closed tooLarge → c.isOpen = false

/-- The writing half writes the front of its queue, and no more than that. -/
structure Paced (c : Connection) : Prop where
  front : c.session.writer.WritesFront
  idle : c.session.writer.outstanding = [] → c.progress = 0
  part : ∀ frame, c.session.writer.outstanding[0]? = some frame →
    c.progress ≤ frame.length

variable {s s' : Connections ι σ} {id : ι} {event : SocketEvent σ}
  {result : SocketResult} {session : Session} {c c' : Connection}

theorem Buffered.stop (tooLarge : Bool) :
    Buffered { session with phase := .closed tooLarge }
      { c with isOpen := false } where
  header := by simp
  body := by simp
  closed _ _ := rfl

theorem Moves.buffered [JsonText] (h : Moves s s' id event result)
    (hbuffered : Buffered (s.reading.session id) (s.connection id)) :
    Buffered (s'.reading.session id) (s'.connection id) := by
  cases h with
  | arrive piece hsession hconnection =>
      rw [hsession, hconnection]
      exact ⟨hbuffered.header, hbuffered.body, hbuffered.closed⟩
  | readHeader n hpos hphase hfits hn hsession hconnection =>
      rw [hsession, hconnection]
      refine ⟨fun _ => ⟨?_, (hbuffered.header hphase).2⟩, by simp, by simp⟩
      rw [List.length_append, List.length_take_of_le hn]
      exact hfits
  | readBody n size hpos hphase hfits hn hsession hconnection =>
      rw [hsession, hconnection]
      refine ⟨by simp [hphase], fun size' hsize' => ?_, by simp [hphase]⟩
      obtain rfl := Phase.body.inj (hphase.symm.trans hsize')
      refine ⟨?_, hfits⟩
      rw [List.length_append, List.length_take_of_le hn,
        (hbuffered.body size hphase).1]
  | tooLarge size hphase hheader hsession hconnection =>
      rw [hsession, hconnection]
      exact Buffered.stop true
  | readingBody hphase hheader hlimit hsession hconnection =>
      rw [hsession, hconnection]
      refine ⟨by simp, fun size hsize => ⟨?_, Nat.zero_le _⟩, by simp⟩
      simp [(hbuffered.header hphase).2]
  | message c size message reply exchange hphase hmessage hlength hprocess hreply
      hsession hconnection hhouse =>
      rw [hsession, hconnection]
      refine ⟨fun _ => ⟨by simp [Session.started], ?_⟩,
        by simp [Session.started], by simp [Session.started]⟩
      simp [← (hbuffered.body size hphase).1]
  | readError hwaits hsession hconnection =>
      rw [hsession, hconnection]
      exact Buffered.stop false
  | transmit n frame hpos hframe hopen hfits hsession hconnection =>
      rw [hsession, hconnection]
      exact ⟨hbuffered.header, hbuffered.body, hbuffered.closed⟩
  | handleWrite error frame hframe herror hsession hconnection =>
      rw [hsession, hconnection]
      refine ⟨hbuffered.header, hbuffered.body, fun tooLarge hphase => ?_⟩
      simp [hbuffered.closed tooLarge hphase]

/-- What the writing half looks at is as before. -/
theorem Paced.congr (h : Paced c)
    (hwriter : c'.session.writer = c.session.writer)
    (hprogress : c'.progress = c.progress) : Paced c' := by
  constructor
  · rw [hwriter]
    exact h.front
  · rw [hwriter, hprogress]
    exact h.idle
  · rw [hwriter, hprogress]
    exact h.part

/-- A reply that is queued does not change what is outstanding, unless nothing
was. -/
theorem send_outstanding {writer : Writer} (reply : Bytes)
    (h : writer.WritesFront) :
    (writer.send reply).outstanding = writer.outstanding ∨
      writer.outstanding = [] := by
  cases h with
  | idle hidle hnone => exact Or.inr hnone
  | writing front rest hwriting hqueue houtstanding =>
      left
      rw [Writer.send, if_pos hwriting]

theorem Paced.send (h : Paced c) (reply : Bytes)
    (hwriter : c'.session.writer = c.session.writer.send reply)
    (hprogress : c'.progress = c.progress) : Paced c' := by
  have hfront : c'.session.writer.WritesFront := by
    rw [hwriter]
    exact h.front.send reply
  rcases send_outstanding reply h.front with hsame | hnone
  · refine ⟨hfront, ?_, ?_⟩
    · rw [hwriter, hsame, hprogress]
      exact h.idle
    · rw [hwriter, hsame, hprogress]
      exact h.part
  · have hzero : c'.progress = 0 := hprogress.trans (h.idle hnone)
    exact ⟨hfront, fun _ => hzero, fun frame _ => by omega⟩

theorem Moves.paced [JsonText] (h : Moves s s' id event result)
    (hpaced : Paced (s.connection id)) : Paced (s'.connection id) := by
  cases h with
  | arrive piece hsession hconnection =>
      rw [hconnection]
      exact hpaced.congr rfl rfl
  | readHeader n hpos hphase hfits hn hsession hconnection =>
      rw [hconnection]
      exact hpaced.congr rfl rfl
  | readBody n size hpos hphase hfits hn hsession hconnection =>
      rw [hconnection]
      exact hpaced.congr rfl rfl
  | tooLarge size hphase hheader hsession hconnection =>
      rw [hconnection]
      exact hpaced.congr rfl rfl
  | readingBody hphase hheader hlimit hsession hconnection =>
      rw [hconnection]
      exact hpaced.congr rfl rfl
  | message c size message reply exchange hphase hmessage hlength hprocess hreply
      hsession hconnection hhouse =>
      rw [hconnection]
      exact hpaced.send reply hreply rfl
  | readError hwaits hsession hconnection =>
      rw [hconnection]
      exact hpaced.congr rfl rfl
  | transmit n frame hpos hframe hopen hfits hsession hconnection =>
      rw [hconnection]
      refine ⟨hpaced.front, fun hnone => ?_, fun frame' hframe' => ?_⟩
      · simp only at hnone
        simp [hnone] at hframe
      · obtain rfl := Option.some.inj (hframe.symm.trans hframe')
        exact hfits
  | handleWrite error frame hframe herror hsession hconnection =>
      rw [hconnection]
      exact ⟨(hpaced.front.complete hframe error).2, fun _ => rfl,
        fun frame _ => Nat.zero_le _⟩

/-! ## Every event does a part of the work -/

/-- What is left to write while a write is outstanding. -/
theorem Paced.writingLeft_eq (h : Paced c) {frame : Bytes}
    (hframe : c.session.writer.outstanding[0]? = some frame) :
    ∃ front rest, c.session.writer.writeQueue = front :: rest ∧
      writingLeft c = frame.length + 1 +
        (rest.map fun reply =>
          (Protocol.framing.frame reply).length + 1).sum - c.progress := by
  cases h.front with
  | idle hidle hnone => simp [hnone] at hframe
  | writing front rest hwriting hqueue houtstanding =>
      obtain rfl : Protocol.framing.frame front = frame := by
        simpa [houtstanding] using hframe
      refine ⟨front, rest, hqueue, ?_⟩
      rw [writingLeft, hqueue, List.map_cons, List.sum_cons]

theorem workLeft_lt_of_reading
    (h : readingLeft (s'.reading.session id) (s'.connection id) <
      readingLeft (s.reading.session id) (s.connection id)) :
    workLeft id s' < workLeft id s :=
  Prod.Lex.toLex_lt_toLex.mpr (Or.inl h)

theorem workLeft_lt_of_writing
    (hreading : readingLeft (s'.reading.session id) (s'.connection id) =
      readingLeft (s.reading.session id) (s.connection id))
    (hwriting : writingLeft (s'.connection id) < writingLeft (s.connection id)) :
    workLeft id s' < workLeft id s :=
  Prod.Lex.toLex_lt_toLex.mpr (Or.inr ⟨hreading, hwriting⟩)

theorem Moves.workLeft_lt [JsonText] (h : Moves s s' id event result)
    (hpaced : Paced (s.connection id)) (hquiet : ∀ piece, event ≠ .arrive piece) :
    workLeft id s' < workLeft id s := by
  cases h with
  | arrive piece => exact (hquiet piece rfl).elim
  | readHeader n hpos hphase hfits hn hsession hconnection =>
      apply workLeft_lt_of_reading
      rw [hsession, hconnection]
      simp only [readingLeft, hphase, List.length_drop, List.length_append,
        List.length_take_of_le hn]
      omega
  | readBody n size hpos hphase hfits hn hsession hconnection =>
      apply workLeft_lt_of_reading
      rw [hsession, hconnection]
      simp only [readingLeft, hphase, List.length_drop]
      omega
  | tooLarge size hphase hheader hsession hconnection =>
      apply workLeft_lt_of_reading
      rw [hsession, hconnection]
      simp only [readingLeft, hphase]
      omega
  | readingBody hphase hheader hlimit hsession hconnection =>
      apply workLeft_lt_of_reading
      rw [hsession, hconnection]
      simp only [readingLeft, hphase, hheader]
      omega
  | message c size message reply exchange hphase hmessage hlength hprocess hreply
      hsession hconnection hhouse =>
      apply workLeft_lt_of_reading
      rw [hsession, hconnection]
      simp only [readingLeft, hphase, Session.started, List.length_nil]
      omega
  | readError hwaits hsession hconnection =>
      apply workLeft_lt_of_reading
      rw [hsession, hconnection]
      simp only [readingLeft]
      split
      · omega
      · omega
      · next tooLarge hphase => exact (hwaits tooLarge hphase).elim
  | transmit n frame hpos hframe hopen hfits hsession hconnection =>
      obtain ⟨front, rest, hqueue, hleft⟩ := hpaced.writingLeft_eq hframe
      have hpart := hpaced.part frame hframe
      apply workLeft_lt_of_writing
      · rw [hsession, hconnection]
        rfl
      · have hsame : writingLeft (s'.connection id) =
            writingLeft (s.connection id) - n := by
          rw [hconnection, writingLeft, writingLeft, Nat.sub_sub]
        rw [hsame, hleft]
        omega
  | handleWrite error frame hframe herror hsession hconnection =>
      obtain ⟨front, rest, hqueue, hleft⟩ := hpaced.writingLeft_eq hframe
      have hpart := hpaced.part frame hframe
      apply workLeft_lt_of_writing
      · rw [hsession, hconnection]
        rfl
      · have hrest : writingLeft (s'.connection id) =
            (rest.map fun reply =>
              (Protocol.framing.frame reply).length + 1).sum := by
          rw [hconnection, writingLeft, Writer.complete,
            Writer.handleWrite_writeQueue, hqueue]
          rfl
        rw [hrest, hleft]
        omega

/-! ## Something can happen while there is work -/

section Enabled

variable [DecidableEq ι]

/-- A byte that waits can be read. -/
theorem exists_read (hopen : (s.connection id).isOpen = true)
    (hne : (s.connection id).arrived ≠ [])
    (h : ((s.reading.session id).phase = .header ∧
        (s.reading.session id).header.length < 4) ∨
      ∃ size, (s.reading.session id).phase = .body size ∧
        (s.connection id).transferred < size.toNat) :
    ∃ result s', s.read id 1 = some (result, s') := by
  have hlength : 1 ≤ (s.connection id).arrived.length :=
    List.length_pos_iff.mpr hne
  have htake : ((s.connection id).arrived.take 1).length = 1 :=
    List.length_take_of_le hlength
  rcases h with ⟨hphase, hshort⟩ | ⟨size, hphase, hmissing⟩
  · have hpiece : (s.connection id).arrived.take 1 ≠ [] := by
      rw [← List.length_pos_iff, htake]
      exact Nat.one_pos
    have hfits : (s.reading.session id).header.length +
        ((s.connection id).arrived.take 1).length ≤ 4 := by
      rw [htake]
      exact hshort
    have hreceive := Sessions.step_receive.mpr
      ⟨⟨hphase, hpiece, hfits⟩, rfl, rfl⟩
    simp only [read, hopen, hlength, hphase, Nat.one_pos, and_self, if_true,
      hreceive, Option.map_some]
    exact ⟨_, _, rfl⟩
  · have hfits : (s.connection id).transferred + 1 ≤ size.toNat := hmissing
    simp only [read, hopen, hlength, hphase, Nat.one_pos, and_self, if_true,
      hfits]
    exact ⟨_, _, rfl⟩

/-- A header that is complete can be handled. -/
theorem exists_handleReadHeader
    (hphase : (s.reading.session id).phase = .header)
    (hheader : (s.reading.session id).header.length = 4) :
    ∃ result s', s.handleReadHeader id = some (result, s') := by
  by_cases hlarge : Protocol.maxMessageSize <
      Protocol.ntohl s.reading.currentMessageSize
  · have hhandle := Sessions.step_handleReadHeader.mpr
      ⟨⟨hphase, hheader⟩, Or.inl ⟨hlarge, rfl, rfl⟩⟩
    rw [handleReadHeader, hhandle, Option.map_some]
    exact ⟨_, _, rfl⟩
  · have hhandle := Sessions.step_handleReadHeader.mpr
      ⟨⟨hphase, hheader⟩, Or.inr ⟨hlarge, rfl, rfl⟩⟩
    rw [handleReadHeader, hhandle, Option.map_some]
    exact ⟨_, _, rfl⟩

/-- A write that is outstanding can go on, or be complete. -/
theorem exists_write {frame : Bytes}
    (hopen : (s.connection id).isOpen = true)
    (hframe : (s.connection id).session.writer.outstanding[0]? = some frame) :
    (∃ n result s', s.transmit id n = some (result, s')) ∨
      ∃ result s', s.handleWrite id false = some (result, s') := by
  rw [← List.head?_eq_getElem?] at hframe
  by_cases hpart : (s.connection id).progress < frame.length
  · left
    refine ⟨frame.length - (s.connection id).progress, ?_⟩
    have hfits : (s.connection id).progress +
        (frame.length - (s.connection id).progress) ≤ frame.length := by
      omega
    simp only [transmit, hframe, hopen, Nat.sub_pos_of_lt hpart, hfits, and_self,
      if_true]
    exact ⟨_, _, rfl⟩
  · right
    simp only [handleWrite, hframe, hpart, decide_false, if_true]
    exact ⟨_, _, rfl⟩

variable [JsonText]

/-- A body that is complete can be processed. -/
theorem exists_handleReadBody {c : Circumstances σ} (hanswers : c.house.Answers)
    {size : UInt32} (hphase : (s.reading.session id).phase = .body size)
    (hcount : (s.connection id).readBuffer.length =
      (s.connection id).transferred)
    (hall : (s.connection id).transferred = size.toNat) :
    ∃ result s', s.handleReadBody id c = some (result, s') := by
  have hlength : ((s.connection id).readBuffer.take
      (s.connection id).transferred).length = size.toNat := by
    rw [List.length_take_of_le hcount.ge, hall]
  have hhandle := Sessions.step_handleReadBody.mpr
    ⟨⟨size, hphase, hlength⟩, rfl, rfl⟩
  obtain ⟨result, exchange, hprocess⟩ := ClientSession.defined_processMessage
    ((s.connection id).readBuffer.take (s.connection id).transferred) hanswers
    ⟨(s.connection id).session, s.house⟩
  simp only [handleReadBody, hhandle, Option.bind_some, hprocess,
    Option.map_some]
  exact ⟨_, _, rfl⟩

/-- While an open connection is not settled, something can happen on it. -/
theorem exists_step (hbuffered : Buffered (s.reading.session id) (s.connection id))
    {c : Circumstances σ} (hanswers : c.house.Answers)
    (hopen : (s.connection id).isOpen = true) (hleft : ¬ Settled s id) :
    ∃ event result s', (∀ piece, event ≠ .arrive piece) ∧
      s.step (id, event) = some (result, s') := by
  cases hwrite : (s.connection id).session.writer.outstanding with
  | cons frame rest =>
      have hframe : (s.connection id).session.writer.outstanding[0]? =
          some frame := by
        rw [hwrite]
        rfl
      rcases exists_write hopen hframe with
        ⟨n, result, s', hstep⟩ | ⟨result, s', hstep⟩
      · exact ⟨.transmit n, result, s', by simp, hstep⟩
      · exact ⟨.handleWrite false, result, s', by simp, hstep⟩
  | nil =>
      cases hphase : (s.reading.session id).phase with
      | header =>
          by_cases hheader : (s.reading.session id).header.length = 4
          · obtain ⟨result, s', hstep⟩ := exists_handleReadHeader hphase hheader
            exact ⟨.handleReadHeader, result, s', by simp, hstep⟩
          · have hshort : (s.reading.session id).header.length < 4 := by
              have hle := (hbuffered.header hphase).1
              omega
            have hne : (s.connection id).arrived ≠ [] := by
              intro hnone
              exact hleft ⟨hopen, hnone, hwrite, fun _ => hshort,
                by simp [Connection.missing, hphase]⟩
            obtain ⟨result, s', hstep⟩ :=
              exists_read hopen hne (Or.inl ⟨hphase, hshort⟩)
            exact ⟨.read 1, result, s', by simp, hstep⟩
      | body size =>
          obtain ⟨hcount, hle⟩ := hbuffered.body size hphase
          by_cases hall : (s.connection id).transferred = size.toNat
          · obtain ⟨result, s', hstep⟩ :=
              exists_handleReadBody hanswers hphase hcount hall
            exact ⟨.handleReadBody c, result, s', by simp, hstep⟩
          · have hmissing : (s.connection id).transferred < size.toNat := by
              omega
            have hne : (s.connection id).arrived ≠ [] := by
              intro hnone
              exact hleft ⟨hopen, hnone, hwrite, by simp [hphase],
                by simpa [Connection.missing, hphase] using hmissing⟩
            obtain ⟨result, s', hstep⟩ :=
              exists_read hopen hne (Or.inr ⟨size, hphase, hmissing⟩)
            exact ⟨.read 1, result, s', by simp, hstep⟩
      | closed tooLarge =>
          simp [hbuffered.closed tooLarge hphase] at hopen

/-! ## Whole runs -/

/-- A connection whose two halves are in order. -/
def InOrder (id : ι) (s : Connections ι σ) : Prop :=
  Buffered (s.reading.session id) (s.connection id) ∧ Paced (s.connection id)

omit [DecidableEq ι] [JsonText] in
theorem inOrder_start (id : ι) (house : σ) : InOrder id (start house) := by
  refine ⟨⟨fun _ => ⟨?_, rfl⟩, by simp [start, Sessions.start, Session.started],
    by simp [start, Sessions.start, Session.started]⟩,
    ⟨Writer.writesFront_initial, fun _ => rfl, fun frame _ => Nat.zero_le _⟩⟩
  simp [start, Sessions.start, Session.started]

/-- Every event keeps a connection in order.  If bytes do not arrive on it the
work that is left there does not grow, and an event on it does a part. -/
theorem InOrder.step (h : InOrder id s) {input : ι × SocketEvent σ}
    (hstep : s.step input = some (result, s')) :
    InOrder id s' ∧ ((∀ piece, input ≠ (id, .arrive piece)) →
      workLeft id s' ≤ workLeft id s ∧
        (input.1 = id → workLeft id s' < workLeft id s)) := by
  obtain ⟨id', event⟩ := input
  obtain ⟨hmoves, hothers⟩ := step_moves hstep
  by_cases hid : id' = id
  · subst id'
    refine ⟨⟨hmoves.buffered h.1, hmoves.paced h.2⟩, fun hquiet => ?_⟩
    have hlt := hmoves.workLeft_lt h.2 fun piece hevent =>
      hquiet piece (by rw [hevent])
    exact ⟨hlt.le, fun _ => hlt⟩
  · obtain ⟨hconnection, hsession⟩ := hothers id (Ne.symm hid)
    have hsame : workLeft id s' = workLeft id s := by
      rw [workLeft, hconnection, hsession]
      rfl
    refine ⟨?_, fun _ => ⟨hsame.le, fun hown => (hid hown).elim⟩⟩
    rw [InOrder, hconnection, hsession]
    exact h

end Enabled

end Connections
end AuctionServer
