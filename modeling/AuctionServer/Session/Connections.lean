import AuctionServer.Session.Replies

/-!
# Sessions over their sockets

Any number of sessions, each over its own socket, with one auction house behind
all of them.  Bytes arrive in pieces and are read in pieces, headers go through
the variable of `Protocol` that all sessions share, and a reply leaves its
session in pieces while other handlers run.  A session closes its socket on
the first error and on a header that announces too much.
-/

namespace AuctionServer

/-- A session, the socket it owns and the operations that are under way on it.
`arrived` are the bytes of the client that no read has taken, `transferred`
counts what the read of a body has taken, and `progress` what the outstanding
write has put on the socket. -/
structure Connection where
  session : ClientSession
  readBuffer : Bytes
  isOpen : Bool
  arrived : Bytes
  transferred : ℕ
  transmitted : Bytes
  progress : ℕ
deriving DecidableEq, Inhabited

/-- The connection of a session that has just been started. -/
def Connection.started : Connection where
  session := ClientSession.initial
  readBuffer := []
  isOpen := true
  arrived := []
  transferred := 0
  transmitted := []
  progress := 0

/-- A body that is read is not all there yet. -/
def Connection.missing (c : Connection) : Phase → Bool
  | .body size => decide (c.transferred < size.toNat)
  | _ => true

/-- What can happen on a connection. -/
inductive SocketEvent (σ : Type) where
  | arrive (piece : Bytes)
  | read (n : ℕ)
  | handleReadHeader
  | handleReadBody (c : Circumstances σ)
  | readError
  | transmit (n : ℕ)
  | handleWrite (error : Bool)

/-- What comes of it. -/
inductive SocketResult where
  | done
  | header (result : ReadResult)
  | processed (message : Bytes) (result : Except MessageException Unit)

/-- All connections, what they wait for, the variable they share and the
auction house. -/
structure Connections (ι σ : Type) where
  reading : Sessions ι
  connection : ι → Connection
  house : σ

namespace Connections

variable {ι σ : Type} [DecidableEq ι]

/-- Replace one connection. -/
def set (s : Connections ι σ) (id : ι) (c : Connection) : Connections ι σ :=
  { s with connection := Function.update s.connection id c }

/-- `async_read` takes bytes off the socket: into the variable while a header is
read, into `read_buffer_` while a body is. -/
def read (s : Connections ι σ) (id : ι) (n : ℕ) :
    Option (SocketResult × Connections ι σ) :=
  let c := s.connection id
  if c.isOpen ∧ 0 < n ∧ n ≤ c.arrived.length then
    match (s.reading.session id).phase with
    | .header =>
        (s.reading.step (.receive id (c.arrived.take n))).map
          fun (result, reading) =>
            (.header result,
              { s.set id { c with arrived := c.arrived.drop n } with reading })
    | .body size =>
        if c.transferred + n ≤ size.toNat then
          some (.done,
            s.set id
              { c with
                readBuffer := c.readBuffer ++ c.arrived.take n
                arrived := c.arrived.drop n
                transferred := c.transferred + n })
        else none
    | .closed _ => none
  else none

/-- `handle_read_header` without an error. -/
def handleReadHeader (s : Connections ι σ) (id : ι) :
    Option (SocketResult × Connections ι σ) :=
  (s.reading.step (.handleReadHeader id)).map fun (result, reading) =>
    let c := s.connection id
    match result with
    | .tooLarge _ =>
        (.header result, { s.set id { c with isOpen := false } with reading })
    | _ => (.header result, { s.set id { c with transferred := 0 } with reading })

variable [JsonText]

/-- `handle_read_body` without an error: the message is processed, and the next
header is read. -/
def handleReadBody (s : Connections ι σ) (id : ι) (circumstances : Circumstances σ) :
    Option (SocketResult × Connections ι σ) :=
  let c := s.connection id
  let message := c.readBuffer.take c.transferred
  (s.reading.step (.handleReadBody id message)).bind fun (_, reading) =>
    (ClientSession.processMessage circumstances message ⟨c.session, s.house⟩).map
      fun (result, exchange) =>
        (.processed message result,
          { s.set id
              { c with
                session := exchange.session
                readBuffer := c.readBuffer.drop c.transferred } with
            reading, house := exchange.house })

omit [JsonText] in
/-- A handler of a read that came to an error before all its bytes were
there. -/
def handleReadError (s : Connections ι σ) (id : ι) :
    Option (SocketResult × Connections ι σ) :=
  let c := s.connection id
  if c.missing (s.reading.session id).phase then
    (s.reading.step (.readError id)).map fun (_, reading) =>
      (.done, { s.set id { c with isOpen := false } with reading })
  else none

/-- `async_write` puts bytes of the outstanding frame on the socket. -/
def transmit (s : Connections ι σ) (id : ι) (n : ℕ) :
    Option (SocketResult × Connections ι σ) :=
  let c := s.connection id
  match c.session.writer.outstanding.head? with
  | none => none
  | some frame =>
      if c.isOpen ∧ 0 < n ∧ c.progress + n ≤ frame.length then
        some (.done,
          s.set id
            { c with
              transmitted := c.transmitted ++ (frame.drop c.progress).take n
              progress := c.progress + n })
      else none

/-- `handle_write`: without an error once the whole frame is on the socket, and
with one before. -/
def handleWrite (s : Connections ι σ) (id : ι) (error : Bool) :
    Option (SocketResult × Connections ι σ) :=
  let c := s.connection id
  match c.session.writer.outstanding.head? with
  | none => none
  | some frame =>
      if error = decide (c.progress < frame.length) then
        some (.done,
          s.set id
            { c with
              session :=
                { c.session with writer := c.session.writer.complete 0 error }
              isOpen := c.isOpen && !error
              progress := 0 })
      else none

/-- One event on one connection. -/
def step (s : Connections ι σ) :
    ι × SocketEvent σ → Option (SocketResult × Connections ι σ)
  | (id, .arrive piece) =>
      let c := s.connection id
      some (.done, s.set id { c with arrived := c.arrived ++ piece })
  | (id, .read n) => s.read id n
  | (id, .handleReadHeader) => s.handleReadHeader id
  | (id, .handleReadBody circumstances) => s.handleReadBody id circumstances
  | (id, .readError) => s.handleReadError id
  | (id, .transmit n) => s.transmit id n
  | (id, .handleWrite error) => s.handleWrite id error

/-- The connections as a machine driven by events. -/
def machine : Machine (Connections ι σ) (ι × SocketEvent σ) SocketResult where
  step := step

/-- Every session has just been started. -/
def start (house : σ) : Connections ι σ where
  reading := Sessions.start ι
  connection := fun _ => .started
  house := house

/-- A recorded event with the connections around it. -/
abbrev Event (ι σ : Type) : Type :=
  Machine.Event (Connections ι σ) (ι × SocketEvent σ) SocketResult

/-! ## What one event does -/

variable {s s' : Connections ι σ} {id id' : ι}

omit [JsonText] in
@[simp] theorem set_connection_self (c : Connection) :
    (s.set id c).connection id = c := by
  simp [set]

omit [JsonText] in
theorem set_connection_of_ne (c : Connection) (hne : id' ≠ id) :
    (s.set id c).connection id' = s.connection id' := by
  simp [set, hne]

/-- What an event does to the connection it is on. -/
inductive Moves (s s' : Connections ι σ) (id : ι) :
    SocketEvent σ → SocketResult → Prop
  | arrive (piece : Bytes)
      (hsession : s'.reading.session id = s.reading.session id)
      (hconnection : s'.connection id =
        { s.connection id with arrived := (s.connection id).arrived ++ piece }) :
      Moves s s' id (.arrive piece) .done
  | readHeader (n : ℕ) (hpos : 0 < n)
      (hphase : (s.reading.session id).phase = .header)
      (hfits : (s.reading.session id).header.length + n ≤ 4)
      (hn : n ≤ (s.connection id).arrived.length)
      (hsession : s'.reading.session id =
        { phase := .header
          header := (s.reading.session id).header ++
            (s.connection id).arrived.take n })
      (hconnection : s'.connection id =
        { s.connection id with arrived := (s.connection id).arrived.drop n }) :
      Moves s s' id (.read n) (.header .received)
  | readBody (n : ℕ) (size : UInt32) (hpos : 0 < n)
      (hphase : (s.reading.session id).phase = .body size)
      (hfits : (s.connection id).transferred + n ≤ size.toNat)
      (hn : n ≤ (s.connection id).arrived.length)
      (hsession : s'.reading.session id = s.reading.session id)
      (hconnection : s'.connection id =
        { s.connection id with
          readBuffer := (s.connection id).readBuffer ++
            (s.connection id).arrived.take n
          arrived := (s.connection id).arrived.drop n
          transferred := (s.connection id).transferred + n }) :
      Moves s s' id (.read n) .done
  | tooLarge (size : UInt32)
      (hphase : (s.reading.session id).phase = .header)
      (hheader : (s.reading.session id).header.length = 4)
      (hsession : s'.reading.session id =
        { s.reading.session id with phase := .closed true })
      (hconnection : s'.connection id =
        { s.connection id with isOpen := false }) :
      Moves s s' id .handleReadHeader (.header (.tooLarge size))
  | readingBody
      (hphase : (s.reading.session id).phase = .header)
      (hheader : (s.reading.session id).header.length = 4)
      (hlimit : ¬ Protocol.maxMessageSize <
        Protocol.ntohl s.reading.currentMessageSize)
      (hsession : s'.reading.session id =
        { s.reading.session id with
          phase := .body (Protocol.ntohl s.reading.currentMessageSize) })
      (hconnection : s'.connection id =
        { s.connection id with transferred := 0 }) :
      Moves s s' id .handleReadHeader
        (.header (.readingBody (Protocol.ntohl s.reading.currentMessageSize)))
  | message (c : Circumstances σ) (size : UInt32) (message reply : Bytes)
      (exchange : Exchange σ)
      (hphase : (s.reading.session id).phase = .body size)
      (hmessage : message =
        (s.connection id).readBuffer.take (s.connection id).transferred)
      (hlength : message.length = size.toNat)
      (hprocess : ClientSession.processMessage c message
        ⟨(s.connection id).session, s.house⟩ = some (.ok (), exchange))
      (hreply : exchange.session.writer =
        (s.connection id).session.writer.send reply)
      (hsession : s'.reading.session id = .started)
      (hconnection : s'.connection id =
        { s.connection id with
          session := exchange.session
          readBuffer := (s.connection id).readBuffer.drop
            (s.connection id).transferred })
      (hhouse : s'.house = exchange.house) :
      Moves s s' id (.handleReadBody c) (.processed message (.ok ()))
  | readError
      (hwaits : ∀ tooLarge, (s.reading.session id).phase ≠ .closed tooLarge)
      (hsession : s'.reading.session id =
        { s.reading.session id with phase := .closed false })
      (hconnection : s'.connection id =
        { s.connection id with isOpen := false }) :
      Moves s s' id .readError .done
  | transmit (n : ℕ) (frame : Bytes) (hpos : 0 < n)
      (hframe : (s.connection id).session.writer.outstanding[0]? = some frame)
      (hopen : (s.connection id).isOpen = true)
      (hfits : (s.connection id).progress + n ≤ frame.length)
      (hsession : s'.reading.session id = s.reading.session id)
      (hconnection : s'.connection id =
        { s.connection id with
          transmitted := (s.connection id).transmitted ++
            (frame.drop (s.connection id).progress).take n
          progress := (s.connection id).progress + n }) :
      Moves s s' id (.transmit n) .done
  | handleWrite (error : Bool) (frame : Bytes)
      (hframe : (s.connection id).session.writer.outstanding[0]? = some frame)
      (herror : error = decide ((s.connection id).progress < frame.length))
      (hsession : s'.reading.session id = s.reading.session id)
      (hconnection : s'.connection id =
        { s.connection id with
          session :=
            { (s.connection id).session with
              writer := (s.connection id).session.writer.complete 0 error }
          isOpen := (s.connection id).isOpen && !error
          progress := 0 }) :
      Moves s s' id (.handleWrite error) .done

/-- The other connections stay as they are. -/
def Others (s s' : Connections ι σ) (id : ι) : Prop :=
  ∀ id', id' ≠ id → s'.connection id' = s.connection id' ∧
    s'.reading.session id' = s.reading.session id'

omit [JsonText] in
theorem others_of_set {c : Connection}
    (hconnection : s'.connection = (s.set id c).connection)
    (hsession : ∀ id', id' ≠ id →
      s'.reading.session id' = s.reading.session id') : Others s s' id := by
  intro id' hne
  rw [hconnection, set_connection_of_ne c hne]
  exact ⟨rfl, hsession id' hne⟩

variable {result : SocketResult}

theorem read_moves {n : ℕ} (h : s.read id n = some (result, s')) :
    Moves s s' id (.read n) result ∧ Others s s' id := by
  simp only [read] at h
  split at h
  · next hguard =>
      split at h
      · next hphase =>
          obtain ⟨⟨outcome, reading⟩, hreceive, heq⟩ :=
            Option.map_eq_some_iff.mp h
          obtain ⟨rfl, rfl⟩ := Prod.mk.inj heq
          obtain ⟨⟨-, -, hfits⟩, rfl, rfl⟩ :=
            Sessions.step_receive.mp hreceive
          rw [List.length_take_of_le hguard.2.2] at hfits
          refine ⟨.readHeader n hguard.2.1 hphase hfits hguard.2.2
            (Sessions.set_session_self _ _ _) (set_connection_self _), ?_⟩
          exact others_of_set rfl fun _ => Sessions.set_session_of_ne _ _
      · next size hphase =>
          split at h
          · next hfits =>
              obtain ⟨rfl, rfl⟩ := Prod.mk.inj (Option.some.inj h)
              refine ⟨.readBody n size hguard.2.1 hphase hfits hguard.2.2 rfl
                (set_connection_self _), ?_⟩
              exact others_of_set rfl fun _ _ => rfl
          · cases h
      · cases h
  · cases h

theorem handleReadHeader_moves (h : s.handleReadHeader id = some (result, s')) :
    Moves s s' id .handleReadHeader result ∧ Others s s' id := by
  obtain ⟨⟨outcome, reading⟩, hhandle, heq⟩ := Option.map_eq_some_iff.mp h
  obtain ⟨⟨hphase, hheader⟩, ⟨-, rfl, rfl⟩ | ⟨hlimit, rfl, rfl⟩⟩ :=
    Sessions.step_handleReadHeader.mp hhandle
  · obtain ⟨rfl, rfl⟩ := Prod.mk.inj heq
    refine ⟨.tooLarge _ hphase hheader (Sessions.set_session_self _ _ _)
      (set_connection_self _), ?_⟩
    exact others_of_set rfl fun _ => Sessions.set_session_of_ne _ _
  · obtain ⟨rfl, rfl⟩ := Prod.mk.inj heq
    refine ⟨.readingBody hphase hheader hlimit
      (Sessions.set_session_self _ _ _) (set_connection_self _), ?_⟩
    exact others_of_set rfl fun _ => Sessions.set_session_of_ne _ _

theorem handleReadBody_moves {c : Circumstances σ}
    (h : s.handleReadBody id c = some (result, s')) :
    Moves s s' id (.handleReadBody c) result ∧ Others s s' id := by
  obtain ⟨⟨outcome, reading⟩, hhandle, hprocessed⟩ := Option.bind_eq_some_iff.mp h
  obtain ⟨⟨r, exchange⟩, hprocess, heq⟩ := Option.map_eq_some_iff.mp hprocessed
  obtain ⟨rfl, rfl⟩ := Prod.mk.inj heq
  obtain ⟨⟨size, hphase, hlength⟩, -, rfl⟩ :=
    Sessions.step_handleReadBody.mp hhandle
  obtain ⟨rfl, reply, hreply⟩ := ClientSession.processMessage_replies c hprocess
  refine ⟨.message c size _ reply exchange hphase rfl hlength hprocess hreply
    (Sessions.set_session_self _ _ _) (set_connection_self _) rfl, ?_⟩
  exact others_of_set rfl fun _ => Sessions.set_session_of_ne _ _

theorem handleReadError_moves (h : s.handleReadError id = some (result, s')) :
    Moves s s' id .readError result ∧ Others s s' id := by
  simp only [handleReadError] at h
  split at h
  · obtain ⟨⟨outcome, reading⟩, hhandle, heq⟩ := Option.map_eq_some_iff.mp h
    obtain ⟨rfl, rfl⟩ := Prod.mk.inj heq
    obtain ⟨-, rfl⟩ := Sessions.step_readError hhandle
    have hwaits : ∀ tooLarge,
        (s.reading.session id).phase ≠ .closed tooLarge := by
      intro tooLarge hphase
      simp [Sessions.step, hphase] at hhandle
    refine ⟨.readError hwaits (Sessions.set_session_self _ _ _)
      (set_connection_self _), ?_⟩
    exact others_of_set rfl fun _ => Sessions.set_session_of_ne _ _
  · cases h

theorem transmit_moves {n : ℕ} (h : s.transmit id n = some (result, s')) :
    Moves s s' id (.transmit n) result ∧ Others s s' id := by
  simp only [transmit] at h
  split at h
  · cases h
  · next frame hframe =>
      split at h
      · next hguard =>
          obtain ⟨rfl, rfl⟩ := Prod.mk.inj (Option.some.inj h)
          rw [List.head?_eq_getElem?] at hframe
          refine ⟨.transmit n frame hguard.2.1 hframe hguard.1 hguard.2.2 rfl
            (set_connection_self _), ?_⟩
          exact others_of_set rfl fun _ _ => rfl
      · cases h

theorem handleWrite_moves {error : Bool}
    (h : s.handleWrite id error = some (result, s')) :
    Moves s s' id (.handleWrite error) result ∧ Others s s' id := by
  simp only [handleWrite] at h
  split at h
  · cases h
  · next frame hframe =>
      split at h
      · next herror =>
          obtain ⟨rfl, rfl⟩ := Prod.mk.inj (Option.some.inj h)
          rw [List.head?_eq_getElem?] at hframe
          refine ⟨.handleWrite error frame hframe herror rfl
            (set_connection_self _), ?_⟩
          exact others_of_set rfl fun _ _ => rfl
      · cases h

/-- An event moves its own connection and no other. -/
theorem step_moves {event : SocketEvent σ}
    (h : s.step (id, event) = some (result, s')) :
    Moves s s' id event result ∧ Others s s' id := by
  cases event with
  | arrive piece =>
      obtain ⟨rfl, rfl⟩ := Prod.mk.inj (Option.some.inj h)
      refine ⟨.arrive piece rfl (set_connection_self _), ?_⟩
      exact others_of_set rfl fun _ _ => rfl
  | read n => exact read_moves h
  | handleReadHeader => exact handleReadHeader_moves h
  | handleReadBody c => exact handleReadBody_moves h
  | readError => exact handleReadError_moves h
  | transmit n => exact transmit_moves h
  | handleWrite error => exact handleWrite_moves h

end Connections
end AuctionServer
