import AuctionServer.Session.Stream

/-!
# Writing replies

The writing half of `ClientSession`.  Replies wait in `write_queue_`, and the
one in front is in the hands of `async_write` while `is_writing_` is set.
`send` and `handle_write` each hold `write_mutex_`, so between them nothing is
seen of either but its result.
-/

namespace AuctionServer

/-- The members of `ClientSession` that concern writing, and the frames of the
asynchronous writes that were started on its socket and are not complete. -/
structure Writer where
  writeQueue : List Bytes
  isWriting : Bool
  outstanding : List Bytes
deriving DecidableEq, Inhabited

namespace Writer

/-- The writer of a new writer. -/
def initial : Writer where
  writeQueue := []
  isWriting := false
  outstanding := []

/-- `write`: start to write the reply in front of the queue, which stays
there. -/
def write (writer : Writer) : Writer :=
  { writer with
    isWriting := true
    outstanding := writer.outstanding ++
      [Protocol.framing.frame (writer.writeQueue.headD [])] }

/-- `send`. -/
def send (writer : Writer) (message : Bytes) : Writer :=
  let queued := { writer with writeQueue := writer.writeQueue ++ [message] }
  if writer.isWriting then queued else queued.write

/-- `handle_write`.  After an error the socket is closed, and what else is
queued stays where it is. -/
def handleWrite (writer : Writer) (error : Bool) : Writer :=
  let popped := { writer with writeQueue := writer.writeQueue.tail }
  if error then { popped with isWriting := false }
  else if popped.writeQueue.isEmpty then { popped with isWriting := false }
  else popped.write

/-- An outstanding write is complete, and its handler runs. -/
def complete (writer : Writer) (k : ℕ) (error : Bool) : Writer :=
  let completed := { writer with outstanding := writer.outstanding.eraseIdx k }
  completed.handleWrite error

/-! ## What the writer keeps -/

/-- A session writes nothing, or it writes the reply in front of its queue. -/
inductive WritesFront (writer : Writer) : Prop
  | idle (hidle : writer.isWriting = false) (hnone : writer.outstanding = [])
  | writing (front : Bytes) (rest : List Bytes)
      (hwriting : writer.isWriting = true)
      (hqueue : writer.writeQueue = front :: rest)
      (houtstanding : writer.outstanding = [Protocol.framing.frame front])

theorem writesFront_initial : initial.WritesFront :=
  .idle rfl rfl

variable {writer : Writer}

/-- At most one write is outstanding. -/
theorem WritesFront.outstanding_le_one (h : writer.WritesFront) :
    writer.outstanding.length ≤ 1 := by
  cases h with
  | idle hidle hnone => simp [hnone]
  | writing front rest hwriting hqueue houtstanding => simp [houtstanding]

theorem send_writeQueue (message : Bytes) :
    (writer.send message).writeQueue = writer.writeQueue ++ [message] := by
  rw [send]
  split <;> rfl

theorem WritesFront.send (h : writer.WritesFront) (message : Bytes) :
    (writer.send message).WritesFront := by
  cases h with
  | idle hidle hnone =>
      rw [Writer.send, hidle]
      -- An error may have left replies in the queue; the oldest is written.
      cases hqueue : writer.writeQueue with
      | nil => exact .writing message [] rfl (by simp [write]) (by simp [write, hnone])
      | cons front rest =>
          exact .writing front (rest ++ [message]) rfl (by simp [write])
            (by simp [write, hnone])
  | writing front rest hwriting hqueue houtstanding =>
      rw [Writer.send, if_pos hwriting]
      exact .writing front (rest ++ [message]) hwriting (by simp [hqueue])
        houtstanding

theorem handleWrite_writeQueue (error : Bool) :
    (writer.handleWrite error).writeQueue = writer.writeQueue.tail := by
  rw [handleWrite]
  split
  · rfl
  · split <;> rfl

/-- A write that is complete is the only one, and of the front of the queue. -/
theorem WritesFront.complete (h : writer.WritesFront) {k : ℕ} {frame : Bytes}
    (hk : writer.outstanding[k]? = some frame) (error : Bool) :
    (∃ front rest, writer.writeQueue = front :: rest ∧
      frame = Protocol.framing.frame front ∧
      (writer.complete k error).writeQueue = rest) ∧
      (writer.complete k error).WritesFront := by
  cases h with
  | idle hidle hnone => simp [hnone] at hk
  | writing front rest hwriting hqueue houtstanding =>
      rw [houtstanding] at hk
      obtain ⟨rfl, rfl⟩ : k = 0 ∧ Protocol.framing.frame front = frame := by
        simpa [List.getElem?_singleton] using hk
      have hnone : writer.outstanding.eraseIdx 0 = [] := by
        rw [houtstanding]
        rfl
      refine ⟨⟨front, rest, hqueue, rfl, ?_⟩, ?_⟩
      · rw [Writer.complete, handleWrite_writeQueue, hqueue]
        rfl
      · -- The handler runs when no write is outstanding any more.
        rw [Writer.complete, handleWrite, hnone, hqueue]
        by_cases herror : error = true
        · rw [if_pos herror]
          exact .idle rfl rfl
        · rw [if_neg herror]
          cases rest with
          | nil => exact .idle rfl rfl
          | cons next rest => exact .writing next rest rfl rfl rfl

end Writer
end AuctionServer
