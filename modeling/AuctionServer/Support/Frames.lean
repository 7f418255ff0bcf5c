import Mathlib.Data.List.Infix
import Mathlib.Data.List.TakeDrop

/-!
# Length-prefixed frames

A stream of frames, each a header of fixed width that announces the length of
the body behind it.  The reader takes frames off the stream one by one and
stops at a header that is cut short, at a header that announces more than a
limit, or at a body that is cut short.

Reading undoes writing (`read_frames`), a cut stream yields the frames that
are complete (`read_take_frames`), and whatever is read was written on the
stream (`frames_read_prefix`).
-/

/-- How a length is written in front of a body.  Lengths up to the limit are
read back, and every header of such a length is the one that is written. -/
structure Framing (α : Type) where
  width : ℕ
  limit : ℕ
  encode : ℕ → List α
  decode : List α → ℕ
  width_pos : 0 < width
  length_encode : ∀ n, (encode n).length = width
  decode_encode : ∀ n, n ≤ limit → decode (encode n) = n
  encode_decode : ∀ header, header.length = width → encode (decode header) = header

namespace Framing

variable {α : Type} (F : Framing α)

/-- A body behind its header. -/
def frame (body : List α) : List α :=
  F.encode body.length ++ body

/-- Frames one after the other. -/
def frames (bodies : List (List α)) : List α :=
  bodies.flatMap F.frame

/-- Why a reader stopped. -/
inductive Ending where
  | header
  | tooLong
  | body
deriving DecidableEq

/-- Read frames off a stream until the reader has to stop. -/
def read (stream : List α) : List (List α) × Ending :=
  if stream.length < F.width then ([], .header)
  else if F.limit < F.decode (stream.take F.width) then ([], .tooLong)
  else if (stream.drop F.width).length < F.decode (stream.take F.width) then
    ([], .body)
  else
    let size := F.decode (stream.take F.width)
    let rest := stream.drop F.width
    (rest.take size :: (read (rest.drop size)).1, (read (rest.drop size)).2)
termination_by stream.length
decreasing_by
  all_goals
    have := F.width_pos
    simp only [List.length_drop]
    omega

variable {F} {body rest header : List α} {bodies : List (List α)}

@[simp] theorem frames_nil : F.frames [] = [] := rfl

@[simp] theorem frames_cons :
    F.frames (body :: bodies) = F.frame body ++ F.frames bodies := by
  simp [frames]

theorem frames_append (bodies bodies' : List (List α)) :
    F.frames (bodies ++ bodies') = F.frames bodies ++ F.frames bodies' :=
  List.flatMap_append

theorem length_frame : (F.frame body).length = F.width + body.length := by
  rw [frame, List.length_append, F.length_encode]

/-! ## Reading one frame -/

theorem read_of_short (h : rest.length < F.width) :
    F.read rest = ([], .header) := by
  rw [read, if_pos h]

theorem read_of_tooLong (hheader : header.length = F.width)
    (h : F.limit < F.decode header) :
    F.read (header ++ rest) = ([], .tooLong) := by
  rw [read, if_neg (by simp [hheader]), ← hheader, List.take_left, if_pos h]

theorem read_of_cut (hheader : header.length = F.width)
    (hle : F.decode header ≤ F.limit) (h : rest.length < F.decode header) :
    F.read (header ++ rest) = ([], .body) := by
  rw [read, if_neg (by simp [hheader]), ← hheader, List.take_left,
    if_neg (Nat.not_lt.mpr hle), List.drop_left, if_pos h]

/-- A whole frame at the front is read first. -/
theorem read_frame (h : body.length ≤ F.limit) :
    F.read (F.frame body ++ rest) =
      (body :: (F.read rest).1, (F.read rest).2) := by
  have hwidth := F.length_encode body.length
  have hsize := F.decode_encode body.length h
  rw [read, frame, List.append_assoc, if_neg (by simp [hwidth]), ← hwidth,
    List.take_left, hsize, if_neg (Nat.not_lt.mpr h), List.drop_left,
    if_neg (by simp)]
  simp only [List.take_left, List.drop_left]

/-! ## Reading what was written -/

/-- Frames in front of anything are read before it. -/
theorem read_frames_append (h : ∀ body ∈ bodies, body.length ≤ F.limit) :
    F.read (F.frames bodies ++ rest) =
      (bodies ++ (F.read rest).1, (F.read rest).2) := by
  induction bodies with
  | nil => simp
  | cons body bodies ih =>
      have hbody := h body (by simp)
      have hbodies := ih fun b hb => h b (List.mem_cons_of_mem _ hb)
      rw [frames_cons, List.append_assoc, read_frame hbody, hbodies]
      rfl

theorem read_nil : F.read [] = ([], .header) :=
  read_of_short F.width_pos

/-- Reading undoes writing. -/
theorem read_frames (h : ∀ body ∈ bodies, body.length ≤ F.limit) :
    F.read (F.frames bodies) = (bodies, .header) := by
  have hread := @read_frames_append α F [] bodies h
  simpa [read_nil] using hread

/-- Nothing is read off a frame that is cut short. -/
theorem read_take_frame (h : body.length ≤ F.limit) {k : ℕ}
    (hk : k < (F.frame body).length) :
    (F.read ((F.frame body).take k)).1 = [] := by
  have hwidth := F.length_encode body.length
  by_cases hheader : k < F.width
  · rw [read_of_short]
    exact Nat.lt_of_le_of_lt (List.length_take_le _ _) hheader
  · rw [length_frame] at hk
    have hsplit : (F.frame body).take k =
        F.encode body.length ++ body.take (k - F.width) := by
      rw [frame, List.take_append, hwidth,
        List.take_of_length_le (by omega)]
    rw [hsplit, read_of_cut hwidth]
    · rw [F.decode_encode _ h]
      exact h
    · rw [F.decode_encode _ h, List.length_take]
      omega

/-- The first `m` frames are those that end within the first `k` symbols. -/
structure Complete (F : Framing α) (bodies : List (List α)) (k m : ℕ) : Prop where
  le : m ≤ bodies.length
  fits : (F.frames (bodies.take m)).length ≤ k
  last : ∀ n, m < n → n ≤ bodies.length → k < (F.frames (bodies.take n)).length

/-- A stream that is cut anywhere yields exactly its complete frames. -/
theorem read_take_frames (h : ∀ body ∈ bodies, body.length ≤ F.limit) (k : ℕ) :
    ∃ m, Complete F bodies k m ∧
      (F.read ((F.frames bodies).take k)).1 = bodies.take m := by
  induction bodies generalizing k with
  | nil =>
      refine ⟨0, ⟨Nat.le_refl _, by simp, ?_⟩, by simp [read_nil]⟩
      intro n hn hle
      exact (Nat.not_lt.mpr hle hn).elim
  | cons body bodies ih =>
      have hbody := h body (by simp)
      by_cases hk : k < (F.frame body).length
      · -- The cut is inside the first frame.
        refine ⟨0, ⟨Nat.zero_le _, by simp, ?_⟩, ?_⟩
        · intro n hn _
          obtain ⟨n, rfl⟩ := Nat.exists_eq_add_one.mpr hn
          rw [List.take_succ_cons, frames_cons, List.length_append]
          omega
        · rw [frames_cons, List.take_append, Nat.sub_eq_zero_of_le (by omega),
            List.take_zero, List.append_nil, read_take_frame hbody hk]
          rfl
      · obtain ⟨m, hcomplete, hread⟩ :=
          ih (fun b hb => h b (List.mem_cons_of_mem _ hb))
            (k - (F.frame body).length)
        refine ⟨m + 1, ⟨?_, ?_, ?_⟩, ?_⟩
        · simpa using hcomplete.le
        · have hfits := hcomplete.fits
          rw [List.take_succ_cons, frames_cons, List.length_append]
          omega
        · intro n hn hle
          obtain ⟨n, rfl⟩ := Nat.exists_eq_add_one.mpr (Nat.zero_lt_of_lt hn)
          have hlast := hcomplete.last n (by omega) (by simpa using hle)
          rw [List.take_succ_cons, frames_cons, List.length_append]
          omega
        · rw [frames_cons, List.take_append, List.take_of_length_le (by omega),
            read_frame hbody, hread, List.take_succ_cons]

/-- A reader of a front of what was written reads a front of the bodies. -/
theorem read_of_prefix_frames (h : ∀ body ∈ bodies, body.length ≤ F.limit)
    {stream : List α} (hbegins : stream <+: F.frames bodies) :
    (F.read stream).1 <+: bodies := by
  obtain ⟨m, -, hread⟩ := read_take_frames h stream.length
  rw [← List.prefix_iff_eq_take.mp hbegins] at hread
  rw [hread]
  exact List.take_prefix m bodies

/-! ## Reading anything -/

/-- Every stream ends where a reader stops, or begins with a whole frame. -/
@[elab_as_elim]
theorem stream_induction {motive : List α → Prop}
    (short : ∀ stream, stream.length < F.width → motive stream)
    (tooLong : ∀ header rest, header.length = F.width →
      F.limit < F.decode header → motive (header ++ rest))
    (cut : ∀ header rest, header.length = F.width →
      F.decode header ≤ F.limit → rest.length < F.decode header →
      motive (header ++ rest))
    (frame : ∀ body rest, body.length ≤ F.limit → motive rest →
      motive (F.frame body ++ rest))
    (stream : List α) : motive stream := by
  induction stream using read.induct (F := F) with
  | case1 stream hshort => exact short stream hshort
  | case2 stream hshort htooLong =>
      have hheader := List.length_take_of_le (Nat.not_lt.mp hshort)
      rw [← List.take_append_drop F.width stream]
      exact tooLong _ _ hheader htooLong
  | case3 stream hshort htooLong hcut =>
      have hheader := List.length_take_of_le (Nat.not_lt.mp hshort)
      rw [← List.take_append_drop F.width stream]
      exact cut _ _ hheader (Nat.not_lt.mp htooLong) hcut
  | case4 stream hshort htooLong hcut size rest ih =>
      have hheader : (stream.take F.width).length = F.width :=
        List.length_take_of_le (Nat.not_lt.mp hshort)
      have hsize : (rest.take size).length = size :=
        List.length_take_of_le (Nat.not_lt.mp hcut)
      have hframe : F.frame (rest.take size) ++ rest.drop size = stream := by
        rw [Framing.frame, hsize, F.encode_decode _ hheader, List.append_assoc,
          List.take_append_drop, List.take_append_drop]
      rw [← hframe]
      apply frame _ _ _ ih
      rw [hsize]
      exact Nat.not_lt.mp htooLong

/-- Whatever is read was written at the front of the stream, in bodies within
the limit. -/
theorem frames_read_prefix (stream : List α) :
    F.frames (F.read stream).1 <+: stream ∧
      ∀ body ∈ (F.read stream).1, body.length ≤ F.limit := by
  induction stream using stream_induction (F := F) with
  | short stream hshort => simp [read_of_short hshort]
  | tooLong header rest hheader hlong => simp [read_of_tooLong hheader hlong]
  | cut header rest hheader hle hcut => simp [read_of_cut hheader hle hcut]
  | frame body rest hlimit ih =>
      obtain ⟨hfront, hbodies⟩ := ih
      rw [read_frame hlimit]
      constructor
      · rw [frames_cons]
        exact (List.prefix_append_right_inj _).mpr hfront
      · intro body hbody
        rcases List.mem_cons.mp hbody with rfl | hmem
        · exact hlimit
        · exact hbodies body hmem

/-- Nothing behind a header that announces too much is read. -/
theorem read_tooLong (h : ∀ body ∈ bodies, body.length ≤ F.limit)
    (hheader : header.length = F.width) (hlong : F.limit < F.decode header) :
    F.read (F.frames bodies ++ (header ++ rest)) = (bodies, .tooLong) := by
  rw [read_frames_append h, read_of_tooLong hheader hlong, List.append_nil]

end Framing
