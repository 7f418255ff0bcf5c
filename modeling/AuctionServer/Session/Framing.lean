import AuctionServer.Core.Item
import AuctionServer.Support.Machine

/-!
# Reading frames

The read loop of `ClientSession`, for any number of sessions at once.  Every
session receives its header into the same variable of `Protocol`, piece by
piece, and the handler that runs once the header is complete reads the length
back from that variable.  Between the two, other sessions may receive theirs.
-/

namespace AuctionServer

namespace Protocol

/-- `MAX_MESSAGE_SIZE`. -/
def maxMessageSize : UInt32 := 10 * 1024 * 1024

/-- The bytes of `current_message_size_`, in memory order. -/
abbrev MessageSize := Fin 4 → UInt8

/-- `ntohl` of the variable: its bytes are in network order, whatever the order
of the host. -/
def ntohl (bytes : MessageSize) : UInt32 :=
  UInt32.ofNat ((bytes 0).toNat * 2 ^ 24 + (bytes 1).toNat * 2 ^ 16 +
    (bytes 2).toNat * 2 ^ 8 + (bytes 3).toNat)

theorem toNat_ntohl (bytes : MessageSize) :
    (ntohl bytes).toNat = (bytes 0).toNat * 2 ^ 24 + (bytes 1).toNat * 2 ^ 16 +
      (bytes 2).toNat * 2 ^ 8 + (bytes 3).toNat := by
  have h₀ := (bytes 0).toNat_lt
  have h₁ := (bytes 1).toNat_lt
  have h₂ := (bytes 2).toNat_lt
  have h₃ := (bytes 3).toNat_lt
  rw [ntohl, UInt32.toNat_ofNat_of_lt']
  rw [UInt32.size]
  omega

theorem ntohl_inj {a b : MessageSize} : ntohl a = ntohl b ↔ a = b := by
  constructor
  · intro h
    have hnat := congrArg UInt32.toNat h
    rw [toNat_ntohl, toNat_ntohl] at hnat
    have ha₁ := (a 1).toNat_lt
    have ha₂ := (a 2).toNat_lt
    have ha₃ := (a 3).toNat_lt
    have hb₁ := (b 1).toNat_lt
    have hb₂ := (b 2).toNat_lt
    have hb₃ := (b 3).toNat_lt
    have h₀ : a 0 = b 0 := UInt8.toNat_inj.mp (by omega)
    have h₁ : a 1 = b 1 := UInt8.toNat_inj.mp (by omega)
    have h₂ : a 2 = b 2 := UInt8.toNat_inj.mp (by omega)
    have h₃ : a 3 = b 3 := UInt8.toNat_inj.mp (by omega)
    funext k
    fin_cases k
    · exact h₀
    · exact h₁
    · exact h₂
    · exact h₃
  · rintro rfl
    rfl

/-- The bytes of `htonl` of a number, in memory order. -/
def htonl (n : UInt32) : MessageSize := fun k =>
  UInt8.ofNat (n.toNat / 2 ^ (8 * (3 - (k : ℕ))))

@[simp] theorem ntohl_htonl (n : UInt32) : ntohl (htonl n) = n := by
  have hn := n.toNat_lt
  apply UInt32.toNat_inj.mp
  rw [toNat_ntohl]
  simp only [htonl, UInt8.toNat_ofNat', Fin.val_zero, Fin.val_one, Fin.val_two]
  norm_num
  omega

@[simp] theorem htonl_ntohl (bytes : MessageSize) :
    htonl (ntohl bytes) = bytes :=
  ntohl_inj.mp (ntohl_htonl (ntohl bytes))

/-- The variable after a piece of a header is received at an offset. -/
def MessageSize.receive (bytes : MessageSize) (offset : ℕ) (piece : Bytes) :
    MessageSize := fun k =>
  if offset ≤ k then (piece[k - offset]?).getD (bytes k) else bytes k

end Protocol

open Protocol (MessageSize)

/-! ## Sessions -/

/-- What a session waits for. -/
inductive Phase where
  | header
  | body (size : UInt32)
  | closed (tooLarge : Bool)
deriving DecidableEq

/-- A session: what it waits for, and the bytes it has received of its most
recent header.  The read loop itself keeps only how many there are. -/
structure Session where
  phase : Phase
  header : Bytes
deriving DecidableEq

/-- A session whose first read has been started. -/
def Session.started : Session where
  phase := .header
  header := []

/-- The header a session received, as the variable would hold it. -/
def Session.own (session : Session) : MessageSize := fun k =>
  session.header[k]?.getD 0

/-- The length announced in the session's own header. -/
def Session.announced (session : Session) : UInt32 :=
  Protocol.ntohl session.own

/-- All sessions, and the variable they share. -/
structure Sessions (ι : Type) where
  currentMessageSize : MessageSize
  session : ι → Session

/-- What can happen to the read loop of a session. -/
inductive ReadEvent (ι : Type) where
  | receive (id : ι) (piece : Bytes)
  | handleReadHeader (id : ι)
  | handleReadBody (id : ι) (message : Bytes)
  | readError (id : ι)

/-- What comes of it. -/
inductive ReadResult where
  | received
  | readingBody (size : UInt32)
  | tooLarge (size : UInt32)
  | message (message : Bytes)
  | stopped
deriving DecidableEq

namespace Sessions

variable {ι : Type} [DecidableEq ι]

/-- Replace one session. -/
def set (r : Sessions ι) (id : ι) (session : Session) : Sessions ι :=
  { r with session := Function.update r.session id session }

/-- One event.  The header handler runs once four bytes are there, the body
handler once the announced number of bytes is. -/
def step (r : Sessions ι) : ReadEvent ι → Option (ReadResult × Sessions ι)
  | .receive id piece =>
      let own := (r.session id).header
      if (r.session id).phase = .header ∧ piece ≠ [] ∧
          own.length + piece.length ≤ 4 then
        some (.received,
          { r.set id { phase := .header, header := own ++ piece } with
            currentMessageSize :=
              r.currentMessageSize.receive own.length piece })
      else none
  | .handleReadHeader id =>
      let own := (r.session id).header
      if (r.session id).phase = .header ∧ own.length = 4 then
        let messageSize := Protocol.ntohl r.currentMessageSize
        if Protocol.maxMessageSize < messageSize then
          some (.tooLarge messageSize,
            r.set id { phase := .closed true, header := own })
        else
          some (.readingBody messageSize,
            r.set id { phase := .body messageSize, header := own })
      else none
  | .handleReadBody id message =>
      match (r.session id).phase with
      | .body size =>
          if message.length = size.toNat then
            some (.message message, r.set id .started)
          else none
      | _ => none
  | .readError id =>
      let session := r.session id
      match session.phase with
      | .header =>
          if session.header.length < 4 then
            some (.stopped, r.set id { session with phase := .closed false })
          else none
      | .body _ => some (.stopped, r.set id { session with phase := .closed false })
      | .closed _ => none

/-- The read loops as a machine driven by events. -/
def machine : Machine (Sessions ι) (ReadEvent ι) ReadResult where
  step := step

/-- Every session is waiting for its first header. -/
def start (ι : Type) : Sessions ι where
  currentMessageSize := fun _ => 0
  session := fun _ => .started

/-- A recorded event with the sessions around it. -/
abbrev Event (ι : Type) := Machine.Event (Sessions ι) (ReadEvent ι) ReadResult

/-- Every session that reads a body reads as much as its own header announces,
and one that was closed for its size announced too much. -/
def Framed (r : Sessions ι) : Prop :=
  ∀ id, (∀ size, (r.session id).phase = .body size →
      size = (r.session id).announced) ∧
    ((r.session id).phase = .closed true →
      Protocol.maxMessageSize < (r.session id).announced)

/-- The variable still holds the header of the session, or both announce too
much. -/
def HoldsHeader (r : Sessions ι) (id : ι) : Prop :=
  r.currentMessageSize = (r.session id).own ∨
    (Protocol.maxMessageSize < Protocol.ntohl r.currentMessageSize ∧
      Protocol.maxMessageSize < (r.session id).announced)

/-- A header handler that runs finds the header of its own session. -/
def FindsHeader (e : Event ι) : Prop :=
  ∀ id, e.input = .handleReadHeader id → e.before.HoldsHeader id

variable {r r' : Sessions ι} {id : ι} {result : ReadResult}

/-! ## What one event does -/

@[simp] theorem set_session_self (r : Sessions ι) (id : ι) (session : Session) :
    (r.set id session).session id = session := by
  simp [set]

theorem set_session_of_ne (r : Sessions ι) {id id' : ι} (session : Session)
    (hne : id' ≠ id) : (r.set id session).session id' = r.session id' := by
  simp [set, hne]

theorem step_receive {piece : Bytes} :
    r.step (.receive id piece) = some (result, r') ↔
      ((r.session id).phase = .header ∧ piece ≠ [] ∧
          (r.session id).header.length + piece.length ≤ 4) ∧
        result = .received ∧
        r' = { r.set id { phase := .header
                          header := (r.session id).header ++ piece } with
          currentMessageSize :=
            r.currentMessageSize.receive (r.session id).header.length piece } := by
  simp only [step]
  split
  · next h => simp [h, eq_comm]
  · next h => simp [h]

theorem step_handleReadHeader :
    r.step (.handleReadHeader id) = some (result, r') ↔
      ((r.session id).phase = .header ∧ (r.session id).header.length = 4) ∧
        ((Protocol.maxMessageSize < Protocol.ntohl r.currentMessageSize ∧
            result = .tooLarge (Protocol.ntohl r.currentMessageSize) ∧
            r' = r.set id { r.session id with phase := .closed true }) ∨
          (¬ Protocol.maxMessageSize < Protocol.ntohl r.currentMessageSize ∧
            result = .readingBody (Protocol.ntohl r.currentMessageSize) ∧
            r' = r.set id { r.session id with
              phase := .body (Protocol.ntohl r.currentMessageSize) })) := by
  simp only [step]
  split
  · next h =>
      split
      · next hlarge => simp [h, hlarge, eq_comm]
      · next hsmall => simp [h, hsmall, eq_comm]
  · next h => simp [h]

theorem step_handleReadBody {message : Bytes} :
    r.step (.handleReadBody id message) = some (result, r') ↔
      (∃ size, (r.session id).phase = .body size ∧
          message.length = size.toNat) ∧
        result = .message message ∧ r' = r.set id .started := by
  simp only [step]
  split
  · next size hphase =>
      split
      · next h => simp [hphase, h, eq_comm]
      · next h => simp [hphase, h]
  · next hphase =>
      constructor
      · intro hnone
        cases hnone
      · rintro ⟨⟨size, hsize, -⟩, -⟩
        exact (hphase size hsize).elim

theorem step_readError :
    r.step (.readError id) = some (result, r') →
      result = .stopped ∧
        r' = r.set id { r.session id with phase := .closed false } := by
  simp only [step]
  split
  · split
    · intro h
      obtain ⟨rfl, rfl⟩ := Prod.mk.inj (Option.some.inj h)
      exact ⟨rfl, rfl⟩
    · simp
  · intro h
    obtain ⟨rfl, rfl⟩ := Prod.mk.inj (Option.some.inj h)
    exact ⟨rfl, rfl⟩
  · simp

/-- Replacing a session by one that is in order keeps all of them in order. -/
theorem Framed.set (h : r.Framed) {session : Session}
    (hbody : ∀ size, session.phase = .body size → size = session.announced)
    (hclosed : session.phase = .closed true →
      Protocol.maxMessageSize < session.announced)
    (message : MessageSize) :
    Framed { r.set id session with currentMessageSize := message } := by
  intro id'
  by_cases hid : id' = id
  · subst id'
    simp only [set_session_self]
    exact ⟨hbody, hclosed⟩
  · simp only [set_session_of_ne r session hid]
    exact h id'

/-- After a header handler its session is in order exactly when the handler
found the session's own header. -/
theorem framed_handleReadHeader_iff (h : r.Framed)
    (hstep : r.step (.handleReadHeader id) = some (result, r')) :
    r'.Framed ↔ r.HoldsHeader id := by
  obtain ⟨-, ⟨hlarge, -, rfl⟩ | ⟨hsmall, -, rfl⟩⟩ :=
    step_handleReadHeader.mp hstep
  · constructor
    · intro hframed
      right
      refine ⟨hlarge, ?_⟩
      have hown := (hframed id).2
      simp only [set_session_self] at hown
      exact hown trivial
    · intro hholds
      refine h.set (by simp) ?_ _
      intro _
      rcases hholds with hsame | ⟨-, hown⟩
      · rw [hsame] at hlarge
        exact hlarge
      · exact hown
  · constructor
    · intro hframed
      left
      have hown := (hframed id).1 (Protocol.ntohl r.currentMessageSize)
      simp only [set_session_self] at hown
      exact Protocol.ntohl_inj.mp (hown trivial)
    · intro hholds
      refine h.set ?_ (by simp) _
      intro size hsize
      obtain rfl := Phase.body.inj hsize
      rcases hholds with hsame | ⟨hlarge, -⟩
      · rw [hsame]
        rfl
      · exact (hsmall hlarge).elim

/-- Any other event keeps the sessions in order. -/
theorem Framed.step (h : r.Framed) {event : ReadEvent ι}
    (hstep : r.step event = some (result, r'))
    (hother : ∀ id, event ≠ .handleReadHeader id) : r'.Framed := by
  cases event with
  | receive id piece =>
      obtain ⟨-, -, rfl⟩ := step_receive.mp hstep
      exact h.set (by simp) (by simp) _
  | handleReadHeader id => exact (hother id rfl).elim
  | handleReadBody id message =>
      obtain ⟨-, -, rfl⟩ := step_handleReadBody.mp hstep
      exact h.set (by simp [Session.started]) (by simp [Session.started]) _
  | readError id =>
      obtain ⟨-, rfl⟩ := step_readError hstep
      exact h.set (by simp) (by simp) _

/-! ## Runs -/

omit [DecidableEq ι] in
theorem framed_start : (start ι).Framed := by
  intro id
  simp [start, Session.started]

variable {events : List (ReadEvent ι)} {es : List (Event ι)}

theorem run_framed_iff
    (hrun : machine.run (start ι) events = some (es, r)) :
    (∀ e ∈ es, e.after.Framed) ↔ ∀ e ∈ es, FindsHeader e := by
  refine Machine.run_invariant_iff ?_ hrun framed_start
  intro e hfires hframed
  obtain ⟨before, event, result, after⟩ := e
  have hstep : before.step event = some (result, after) := hfires
  by_cases hheader : ∃ id, event = .handleReadHeader id
  · obtain ⟨id, rfl⟩ := hheader
    have hiff := framed_handleReadHeader_iff hframed hstep
    constructor
    · intro hafter id' hid'
      obtain rfl : id = id' := ReadEvent.handleReadHeader.inj hid'
      exact hiff.mp hafter
    · intro hfinds
      exact hiff.mpr (hfinds id rfl)
  · have hother : ∀ id, event ≠ .handleReadHeader id :=
      fun id hid => hheader ⟨id, hid⟩
    have hafter : after.Framed := Framed.step hframed hstep hother
    constructor
    · intro _ id hid
      exact (hother id hid).elim
    · intro _
      exact hafter

/-! ## Headers that do not overlap -/

/-- When a session receives a piece of its header, no other session has part of
a header whose handler has not run. -/
def Alone (e : Event ι) : Prop :=
  ∀ id piece, e.input = .receive id piece → ∀ id', id' ≠ id →
    (e.before.session id').phase = .header →
      (e.before.session id').header = []

/-- What a session has received of its header is still in the variable. -/
def Kept (r : Sessions ι) : Prop :=
  ∀ id, (r.session id).phase = .header →
    ∀ k : Fin 4, k < (r.session id).header.length →
      r.currentMessageSize k = (r.session id).own k

theorem receive_append (bytes : MessageSize) {own piece : Bytes} {k : Fin 4}
    (hkept : k < own.length → bytes k = own[k]?.getD 0)
    (hk : k < (own ++ piece).length) :
    bytes.receive own.length piece k = (own ++ piece)[k]?.getD 0 := by
  rw [MessageSize.receive]
  by_cases hown : own.length ≤ k
  · have hpiece : (k : ℕ) - own.length < piece.length := by
      rw [List.length_append] at hk
      omega
    simp [hown, List.getElem?_append_right hown, hpiece]
  · rw [if_neg hown, hkept (by omega)]
    have hlt : (k : ℕ) < own.length := by
      omega
    simp [List.getElem?_append_left hlt]

/-- A session that waits for something else, or for a header of which nothing
has come, leaves what the others received in the variable. -/
theorem Kept.set (h : r.Kept) {session : Session}
    (hnew : session.phase = .header → session.header = []) :
    (r.set id session).Kept := by
  intro id' hphase k hk
  by_cases hid : id' = id
  · subst id'
    rw [set_session_self] at hphase hk
    rw [hnew hphase] at hk
    simp at hk
  · rw [set_session_of_ne r session hid] at hphase hk ⊢
    exact h id' hphase k hk

theorem kept_preserves :
    (machine : Machine (Sessions ι) _ _).Preserves Alone Kept := by
  intro e hfires halone hkept
  obtain ⟨before, event, result, after⟩ := e
  have hstep : before.step event = some (result, after) := hfires
  replace hkept : before.Kept := hkept
  cases event with
  | receive id piece =>
      obtain ⟨⟨hphase, -, -⟩, -, rfl⟩ := step_receive.mp hstep
      intro id' hphase' k hk
      by_cases hid : id' = id
      · subst id'
        simp only [set_session_self] at hk ⊢
        exact receive_append _ (hkept id hphase k) hk
      · -- The other sessions have nothing in the variable to lose.
        simp only [set_session_of_ne before _ hid] at hphase' hk
        have hnone : (before.session id').header = [] :=
          halone id piece rfl id' hid hphase'
        rw [hnone] at hk
        simp at hk
  | handleReadHeader id =>
      obtain ⟨-, ⟨-, -, rfl⟩ | ⟨-, -, rfl⟩⟩ := step_handleReadHeader.mp hstep
      · exact hkept.set (by simp)
      · exact hkept.set (by simp)
  | handleReadBody id message =>
      obtain ⟨-, -, rfl⟩ := step_handleReadBody.mp hstep
      exact hkept.set fun _ => rfl
  | readError id =>
      obtain ⟨-, rfl⟩ := step_readError hstep
      exact hkept.set (by simp)

omit [DecidableEq ι] in
theorem kept_start : (start ι).Kept := by
  intro id _ k hk
  simp [start, Session.started] at hk

/-- As long as headers do not overlap, every session keeps its lengths. -/
theorem run_framed_of_alone
    (hrun : machine.run (start ι) events = some (es, r))
    (halone : ∀ e ∈ es, Alone e) : ∀ e ∈ es, e.after.Framed := by
  rw [run_framed_iff hrun]
  intro e he id hinput
  have hkept := ((Machine.run_invariant kept_preserves hrun halone
    kept_start).2 e he).1
  obtain ⟨before, event, result, after⟩ := e
  obtain rfl : event = .handleReadHeader id := hinput
  have hstep : before.step (.handleReadHeader id) = some (result, after) :=
    Machine.run_fires hrun _ he
  obtain ⟨⟨hphase, hlength⟩, -⟩ := step_handleReadHeader.mp hstep
  left
  funext k
  exact hkept id hphase k (by rw [hlength]; exact k.isLt)

/-- The sessions of a run keep their lengths apart exactly when every header
handler of the run finds the header of its own session, as it does when no two
headers overlap. -/
theorem frame_lengths_kept_iff
    (hrun : machine.run (start ι) events = some (es, r)) :
    ((∀ e ∈ es, e.after.Framed) ↔ ∀ e ∈ es, FindsHeader e) ∧
      ((∀ e ∈ es, Alone e) → ∀ e ∈ es, e.after.Framed) :=
  ⟨run_framed_iff hrun, run_framed_of_alone hrun⟩

/-- Two sessions whose headers arrive and are handled one after the other. -/
theorem frame_lengths_kept_turns :
    ∃ es r, machine.run (start Bool)
        [.receive false [0, 0], .receive false [0, 2], .handleReadHeader false,
          .receive true [0, 0, 0, 9], .handleReadHeader true,
          .handleReadBody false [123, 125]] = some (es, r) ∧
      ((∀ e ∈ es, e.after.Framed) ↔ ∀ e ∈ es, FindsHeader e) ∧
      ((∀ e ∈ es, Alone e) → ∀ e ∈ es, e.after.Framed) := by
  obtain ⟨es, r, hrun⟩ : ∃ es r, machine.run (start Bool)
      [.receive false [0, 0], .receive false [0, 2], .handleReadHeader false,
        .receive true [0, 0, 0, 9], .handleReadHeader true,
        .handleReadBody false [123, 125]] = some (es, r) := ⟨_, _, rfl⟩
  exact ⟨es, r, hrun, frame_lengths_kept_iff hrun⟩

/-- The header of a second session arrives before the handler of the first
runs, which then reads a body of the wrong length. -/
theorem second_header_overwrites_first :
    ∃ es r, machine.run (start Bool)
        [.receive false [0, 0, 0, 2], .receive true [0, 0, 0, 9],
          .handleReadHeader false] = some (es, r) ∧
      ¬ ∀ e ∈ es, e.after.Framed := by
  refine ⟨_, _, rfl, ?_⟩
  intro hframed
  have hlast := hframed _ (List.mem_cons_of_mem _
    (List.mem_cons_of_mem _ List.mem_cons_self)) false
  have hsize := hlast.1 9 rfl
  exact absurd hsize (by decide)

end Sessions
end AuctionServer
