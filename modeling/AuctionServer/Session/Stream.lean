import AuctionServer.Session.Framing
import AuctionServer.Support.Frames

/-!
# One session and its byte stream

The read loop of a single session over the bytes its client sends.  Each
`async_read` is completed with exactly the bytes it asks for, or with an error
when the stream ends before; a body goes through `read_buffer_`, and
`process_message` is handed the front of it.  The loop reads the framing that
`write` writes.
-/

namespace AuctionServer

open Protocol (MessageSize)

/-! ## The framing of the protocol -/

/-- The header a list of bytes makes. -/
def Protocol.sizeOf (header : Bytes) : MessageSize := fun k =>
  header[k]?.getD 0

/-- What `write` sends in front of a message of some length: the length as a
`uint32_t` in network byte order. -/
def Protocol.headerOf (length : ℕ) : Bytes :=
  List.ofFn (Protocol.htonl (UInt32.ofNat length))

theorem Protocol.sizeOf_ofFn (bytes : MessageSize) :
    Protocol.sizeOf (List.ofFn bytes) = bytes := by
  funext k
  simp only [Protocol.sizeOf, Fin.getElem?_fin, List.getElem?_ofFn, k.isLt,
    dif_pos]
  rfl

theorem Protocol.ofFn_sizeOf {header : Bytes} (h : header.length = 4) :
    List.ofFn (Protocol.sizeOf header) = header := by
  apply List.ext_getElem
  · rw [List.length_ofFn, h]
  · intro k _ hk
    rw [List.getElem_ofFn, Protocol.sizeOf, Fin.getElem?_fin,
      List.getElem?_eq_getElem hk]
    rfl

/-- Lengths up to `MAX_MESSAGE_SIZE` in four bytes. -/
def Protocol.framing : Framing UInt8 where
  width := 4
  limit := Protocol.maxMessageSize.toNat
  encode := Protocol.headerOf
  decode header := (Protocol.ntohl (Protocol.sizeOf header)).toNat
  width_pos := by decide
  length_encode n := by simp [Protocol.headerOf]
  decode_encode n hn := by
    have hmax : Protocol.maxMessageSize.toNat < 2 ^ 32 := UInt32.toNat_lt _
    rw [Protocol.headerOf, Protocol.sizeOf_ofFn, Protocol.ntohl_htonl,
      UInt32.toNat_ofNat_of_lt' (Nat.lt_of_le_of_lt hn hmax)]
  encode_decode header h := by
    rw [Protocol.headerOf, UInt32.ofNat_toNat, Protocol.htonl_ntohl,
      Protocol.ofFn_sizeOf h]

/-! ## The read loop over a stream -/

/-- A session by itself, and its `read_buffer_`. -/
structure Reader where
  sessions : Sessions Unit
  readBuffer : Bytes

namespace Reader

open Sessions (machine)

/-- The session after `start`. -/
def start : Reader where
  sessions := Sessions.start Unit
  readBuffer := []

/-- The messages that were handed to `process_message`. -/
def handed (es : List (Sessions.Event Unit)) : List Bytes :=
  es.filterMap fun e =>
    match e.output with
    | .message message => some message
    | _ => none

/-- The next `async_read` and its handler, over the bytes that are left: what
is handed over, the reader afterwards, and the bytes left then. -/
def turn (reader : Reader) (rest : Bytes) : Option (List Bytes × Reader × Bytes) :=
  match (reader.sessions.session ()).phase with
  | .header =>
      if rest.length < 4 then
        let events := if rest = [] then [.readError ()]
          else [.receive () rest, .readError ()]
        (machine.run reader.sessions events).map fun r =>
          (handed r.1, { reader with sessions := r.2 }, [])
      else
        let events := [.receive () (rest.take 4), .handleReadHeader ()]
        (machine.run reader.sessions events).map fun r =>
          (handed r.1, { reader with sessions := r.2 }, rest.drop 4)
  | .body size =>
      if rest.length < size.toNat then
        (machine.run reader.sessions [.readError ()]).map fun r =>
          (handed r.1, ⟨r.2, reader.readBuffer ++ rest⟩, [])
      else
        let filled := reader.readBuffer ++ rest.take size.toNat
        let message := filled.take size.toNat
        (machine.run reader.sessions [.handleReadBody () message]).map fun r =>
          (handed r.1, ⟨r.2, filled.drop size.toNat⟩, rest.drop size.toNat)
  | .closed _ => none

/-- Turns of the read loop, at most as many as there is fuel. -/
def feed : ℕ → Reader → Bytes → List Bytes × Reader
  | 0, reader, _ => ([], reader)
  | fuel + 1, reader, rest =>
      match reader.turn rest with
      | none => ([], reader)
      | some (bodies, reader, rest) =>
          (bodies ++ (feed fuel reader rest).1, (feed fuel reader rest).2)

/-- The bodies `process_message` is handed when a client sends a stream. -/
def handedOver (stream : Bytes) : List Bytes :=
  (feed (stream.length + 2) start stream).1

/-! ## Turns -/

/-- A reader between two frames. -/
structure Ready (reader : Reader) : Prop where
  session : reader.sessions.session () = .started
  readBuffer : reader.readBuffer = []

theorem ready_start : start.Ready := ⟨rfl, rfl⟩

variable {reader : Reader} {header body rest : Bytes}

/-- A header that arrives in one piece is all the variable holds. -/
theorem receive_zero (bytes : MessageSize) (hheader : header.length = 4) :
    bytes.receive 0 header = Protocol.sizeOf header := by
  funext k
  have hk : (k : ℕ) < header.length := by
    rw [hheader]
    exact k.isLt
  rw [MessageSize.receive, if_pos (Nat.zero_le _)]
  simp [Protocol.sizeOf, hk]

/-- The sessions after a read error. -/
def stopped (r : Sessions Unit) : Sessions Unit :=
  r.set () { r.session () with phase := .closed false }

theorem stopped_phase (r : Sessions Unit) :
    ((stopped r).session ()).phase = .closed false := by
  rw [stopped, Sessions.set_session_self]

/-- A session that is reading a header or a body stops at an error. -/
theorem step_stopped {r : Sessions Unit}
    (h : (∃ size, (r.session ()).phase = .body size) ∨
      ((r.session ()).phase = .header ∧ (r.session ()).header.length < 4)) :
    r.step (.readError ()) = some (.stopped, stopped r) := by
  rcases h with ⟨size, hphase⟩ | ⟨hphase, hshort⟩
  · simp only [Sessions.step, hphase]
    rfl
  · simp only [Sessions.step, hphase, if_pos hshort]
    rfl

/-- The sessions once a ready reader has received bytes of a header. -/
def received (reader : Reader) (piece : Bytes) : Sessions Unit :=
  { reader.sessions.set () { phase := .header, header := piece } with
    currentMessageSize := reader.sessions.currentMessageSize.receive 0 piece }

@[simp] theorem received_session (reader : Reader) (piece : Bytes) :
    (reader.received piece).session () =
      { phase := .header, header := piece } :=
  Sessions.set_session_self reader.sessions () _

theorem step_received (h : reader.Ready) (hne : rest ≠ [])
    (hrest : rest.length ≤ 4) :
    reader.sessions.step (.receive () rest) =
      some (.received, reader.received rest) := by
  rw [Sessions.step_receive]
  rw [h.session]
  exact ⟨⟨rfl, hne, by simpa [Session.started] using hrest⟩, rfl, rfl⟩

theorem Ready.phase (h : reader.Ready) :
    (reader.sessions.session ()).phase = .header := by
  rw [h.session]
  rfl

/-- The stream ends inside a header. -/
theorem turn_of_short (h : reader.Ready) (hrest : rest.length < 4) :
    ∃ reader', reader.turn rest = some ([], reader', []) ∧
      (reader'.sessions.session ()).phase = .closed false := by
  rcases eq_or_ne rest [] with rfl | hne
  · have hshort : (reader.sessions.session ()).header.length < 4 := by
      rw [h.session]
      decide
    have hrun : machine.run reader.sessions [.readError ()] = _ :=
      Machine.run_singleton (step_stopped (Or.inr ⟨h.phase, hshort⟩))
    refine ⟨{ reader with sessions := stopped reader.sessions }, ?_,
      stopped_phase _⟩
    simp only [turn, h.phase, hrest, if_true, hrun, Option.map_some]
    rfl
  · have hstop := @step_stopped (reader.received rest)
      (Or.inr ⟨by simp, by simpa using hrest⟩)
    have hrun : machine.run reader.sessions
        [.receive () rest, .readError ()] = _ :=
      Machine.run_pair (step_received h hne hrest.le) hstop
    refine ⟨{ reader with sessions := stopped (reader.received rest) }, ?_,
      stopped_phase _⟩
    simp only [turn, h.phase, hrest, if_true, if_neg hne, hrun, Option.map_some]
    rfl

/-- A header arrives. -/
theorem turn_of_header (h : reader.Ready) (hheader : header.length = 4) :
    let size := Protocol.ntohl (Protocol.sizeOf header)
    ∃ reader', reader.turn (header ++ rest) = some ([], reader', rest) ∧
      reader'.readBuffer = [] ∧
      (reader'.sessions.session ()).phase =
        if Protocol.maxMessageSize < size then .closed true else .body size := by
  intro size
  have hne : header ≠ [] := by
    rintro rfl
    cases hheader
  have hvariable : (reader.received header).currentMessageSize =
      Protocol.sizeOf header := receive_zero _ hheader
  have htake : (header ++ rest).take 4 = header := by
    rw [← hheader, List.take_left]
  have hdrop : (header ++ rest).drop 4 = rest := by
    rw [← hheader, List.drop_left]
  have hlong : ¬ (header ++ rest).length < 4 := by
    rw [List.length_append]
    omega
  have hturn : ∀ {result sessions}, (reader.received header).step
      (.handleReadHeader ()) = some (result, sessions) →
      handed [⟨reader.received header, .handleReadHeader (), result, sessions⟩] =
        [] →
      reader.turn (header ++ rest) = some ([], { reader with sessions }, rest) := by
    intro result sessions hhandle hnone
    have hrun : machine.run reader.sessions
        [.receive () header, .handleReadHeader ()] = _ :=
      Machine.run_pair (step_received h hne hheader.le) hhandle
    simp only [turn, h.phase, if_neg hlong, htake, hdrop, hrun, Option.map_some]
    -- Receiving the header hands nothing over.
    exact congrArg (fun bodies => some (bodies, _, rest)) hnone
  by_cases hlarge : Protocol.maxMessageSize < size
  · have hhandle : (reader.received header).step (.handleReadHeader ()) =
        some (.tooLarge size, (reader.received header).set ()
          { phase := .closed true, header := header }) := by
      rw [Sessions.step_handleReadHeader, hvariable, received_session]
      exact ⟨⟨rfl, hheader⟩, Or.inl ⟨hlarge, rfl, rfl⟩⟩
    refine ⟨_, hturn hhandle rfl, h.readBuffer, ?_⟩
    rw [if_pos hlarge, Sessions.set_session_self]
  · have hhandle : (reader.received header).step (.handleReadHeader ()) =
        some (.readingBody size, (reader.received header).set ()
          { phase := .body size, header := header }) := by
      rw [Sessions.step_handleReadHeader, hvariable, received_session]
      exact ⟨⟨rfl, hheader⟩, Or.inr ⟨hlarge, rfl, rfl⟩⟩
    refine ⟨_, hturn hhandle rfl, h.readBuffer, ?_⟩
    rw [if_neg hlarge, Sessions.set_session_self]

/-- The stream ends inside a body. -/
theorem turn_of_cut {size : UInt32}
    (hphase : (reader.sessions.session ()).phase = .body size)
    (hrest : rest.length < size.toNat) :
    ∃ reader', reader.turn rest = some ([], reader', []) ∧
      (reader'.sessions.session ()).phase = .closed false := by
  have hrun : machine.run reader.sessions [.readError ()] = _ :=
    Machine.run_singleton (step_stopped (Or.inl ⟨size, hphase⟩))
  refine ⟨⟨stopped reader.sessions, reader.readBuffer ++ rest⟩, ?_,
    stopped_phase _⟩
  simp only [turn, hphase, hrest, if_true, hrun, Option.map_some]
  rfl

/-- A body arrives, and is handed over as it is. -/
theorem turn_of_body {size : UInt32}
    (hphase : (reader.sessions.session ()).phase = .body size)
    (hbuffer : reader.readBuffer = []) (hbody : body.length = size.toNat) :
    ∃ reader', reader.turn (body ++ rest) = some ([body], reader', rest) ∧
      reader'.Ready := by
  have hhandle : reader.sessions.step (.handleReadBody () body) =
      some (.message body, reader.sessions.set () .started) := by
    rw [Sessions.step_handleReadBody]
    exact ⟨⟨size, hphase, hbody⟩, rfl, rfl⟩
  have hrun : machine.run reader.sessions [.handleReadBody () body] = _ :=
    Machine.run_singleton hhandle
  have hlong : ¬ (body ++ rest).length < body.length := by
    rw [List.length_append]
    omega
  refine ⟨⟨reader.sessions.set () .started, []⟩, ?_,
    Sessions.set_session_self _ _ _, rfl⟩
  simp only [turn, hphase, ← hbody, if_neg hlong, hbuffer, List.nil_append,
    List.take_left, List.drop_left, List.take_length, List.drop_length, hrun,
    Option.map_some]
  rfl

/-! ## The whole stream -/

theorem feed_of_closed {tooLarge : Bool}
    (hphase : (reader.sessions.session ()).phase = .closed tooLarge)
    (fuel : ℕ) (stream : Bytes) : feed fuel reader stream = ([], reader) := by
  cases fuel with
  | zero => rfl
  | succ fuel => simp [feed, turn, hphase]

theorem feed_succ {fuel : ℕ} {bodies : List Bytes} {reader' : Reader}
    {stream : Bytes} (h : reader.turn stream = some (bodies, reader', rest)) :
    feed (fuel + 1) reader stream =
      (bodies ++ (feed fuel reader' rest).1, (feed fuel reader' rest).2) := by
  simp only [feed, h]

/-- The loop hands over the bodies the framing reads, and then it is closed:
for its size if a header announced too much, at the end of the stream
otherwise. -/
theorem feed_ready (stream : Bytes) (h : reader.Ready) {fuel : ℕ}
    (hfuel : stream.length + 2 ≤ fuel) :
    (feed fuel reader stream).1 = (Protocol.framing.read stream).1 ∧
      ((feed fuel reader stream).2.sessions.session ()).phase =
        .closed (decide ((Protocol.framing.read stream).2 = .tooLong)) := by
  induction stream using Framing.stream_induction (F := Protocol.framing)
    generalizing reader fuel with
  | short stream hshort =>
      obtain ⟨fuel, rfl⟩ := Nat.exists_eq_add_one.mpr (show 0 < fuel by omega)
      obtain ⟨reader', hturn, hphase⟩ := turn_of_short h hshort
      rw [feed_succ hturn, feed_of_closed hphase, Framing.read_of_short hshort]
      exact ⟨rfl, hphase⟩
  | tooLong header rest hheader hlong =>
      obtain ⟨fuel, rfl⟩ := Nat.exists_eq_add_one.mpr (show 0 < fuel by omega)
      obtain ⟨reader', hturn, -, hphase⟩ := @turn_of_header reader header rest h hheader
      rw [if_pos (UInt32.lt_iff_toNat_lt.mpr hlong)] at hphase
      rw [feed_succ hturn, feed_of_closed hphase,
        Framing.read_of_tooLong hheader hlong]
      exact ⟨rfl, hphase⟩
  | cut header rest hheader hle hcut =>
      rw [List.length_append, hheader] at hfuel
      obtain ⟨fuel, rfl⟩ := Nat.exists_eq_add_of_le (show 2 ≤ fuel by omega)
      obtain ⟨between, hturn, -, hbody⟩ := @turn_of_header reader header rest h hheader
      rw [if_neg fun hlarge => Nat.not_lt.mpr hle
        (UInt32.lt_iff_toNat_lt.mp hlarge)] at hbody
      obtain ⟨reader', hturn', hphase⟩ := turn_of_cut hbody hcut
      rw [Nat.add_comm, feed_succ hturn, feed_succ hturn', feed_of_closed hphase,
        Framing.read_of_cut hheader hle hcut]
      exact ⟨rfl, hphase⟩
  | frame body rest hlimit ih =>
      have hheader := Protocol.framing.length_encode body.length
      have hsize := Protocol.framing.decode_encode body.length hlimit
      rw [List.length_append, Framing.length_frame] at hfuel
      obtain ⟨fuel, rfl⟩ := Nat.exists_eq_add_of_le (show 2 ≤ fuel by omega)
      obtain ⟨between, hturn, hbuffer, hbody⟩ :=
        @turn_of_header reader _ (body ++ rest) h hheader
      rw [if_neg fun hlarge => Nat.not_lt.mpr (hsize.le.trans hlimit)
        (UInt32.lt_iff_toNat_lt.mp hlarge)] at hbody
      obtain ⟨reader', hturn', hready⟩ :=
        @turn_of_body between body rest _ hbody hbuffer hsize.symm
      have hwidth : Protocol.framing.width = 4 := rfl
      have hleft : rest.length + 2 ≤ fuel := by omega
      obtain ⟨hfed, hphase⟩ := ih hready hleft
      rw [Framing.read_frame hlimit, Framing.frame, List.append_assoc,
        Nat.add_comm, feed_succ hturn, feed_succ hturn', hfed]
      exact ⟨rfl, hphase⟩

/-- The fuel of `handedOver` is enough for the loop to stop by itself. -/
theorem handedOver_eq (stream : Bytes) :
    handedOver stream = (Protocol.framing.read stream).1 :=
  (feed_ready stream ready_start (Nat.le_refl _)).1

theorem handedOver_closed (stream : Bytes) :
    ∃ tooLarge, ((feed (stream.length + 2) start stream).2.sessions.session
      ()).phase = .closed tooLarge :=
  ⟨_, (feed_ready stream ready_start (Nat.le_refl _)).2⟩

/-- What clients write, the read loop hands over: all of it, or what is
complete if the stream is cut.  Whatever the loop hands over is a front of the
stream, framed, and a header above the limit is the end of it. -/
theorem framing_round_trip :
    (∀ bodies : List Bytes,
      (∀ body ∈ bodies, body.length ≤ Protocol.maxMessageSize.toNat) →
      handedOver (Protocol.framing.frames bodies) = bodies ∧
      ∀ k, ∃ m, Framing.Complete Protocol.framing bodies k m ∧
        handedOver ((Protocol.framing.frames bodies).take k) = bodies.take m) ∧
    (∀ stream : Bytes,
      (Protocol.framing.frames (handedOver stream) <+: stream ∧
        ∀ body ∈ handedOver stream,
          body.length ≤ Protocol.maxMessageSize.toNat) ∧
      ∃ tooLarge, ((feed (stream.length + 2) start stream).2.sessions.session
        ()).phase = .closed tooLarge) ∧
    ∀ (bodies : List Bytes) (header rest : Bytes),
      (∀ body ∈ bodies, body.length ≤ Protocol.maxMessageSize.toNat) →
      header.length = 4 →
      Protocol.maxMessageSize < Protocol.ntohl (Protocol.sizeOf header) →
      handedOver (Protocol.framing.frames bodies ++ (header ++ rest)) = bodies := by
  refine ⟨fun bodies hbodies => ⟨?_, fun k => ?_⟩,
    fun stream => ⟨?_, handedOver_closed stream⟩,
    fun bodies header rest hbodies hheader hlong => ?_⟩
  · rw [handedOver_eq, Framing.read_frames hbodies]
  · rw [handedOver_eq]
    exact Framing.read_take_frames hbodies k
  · rw [handedOver_eq]
    exact Framing.frames_read_prefix stream
  · rw [handedOver_eq, Framing.read_tooLong hbodies hheader]
    exact UInt32.lt_iff_toNat_lt.mp hlong

end Reader
end AuctionServer
