import BinderDownload.Http.Message

namespace BinderDownload.Http

open Text

def kReadBufferSize : ℕ := 64 * 1024

structure Segment where
  bytes : Bytes
  ne_nil : bytes ≠ []
  le_size : bytes.length ≤ kReadBufferSize

/-- The four answers of `Conn::recv`. A retry carries what `elapsedMs(idleSince)` reads after it. -/
inductive Recv
  | data (segment : Segment)
  | closed
  | again (elapsedMs : ℤ)
  | broken (error : Bytes)

structure Tick where
  canceled : Bool := false
  recv : Recv

/-- Why a call on the connection did not succeed. It may have failed, with the error code and the
text of `error()`, or not have returned yet when the schedule of ticks ends. -/
inductive Halt
  | waiting
  | failed (error : Error) (message : Bytes)
  deriving DecidableEq

structure Reader where
  ticks : List Tick
  polls : Bool
  mIdleTimeoutMs : ℤ
  mBuffer : Bytes
  mAvailable : ℕ
  mOffset : ℕ
  size_eq : mBuffer.length = kReadBufferSize
  available_le : mAvailable ≤ kReadBufferSize

namespace Reader

def new (ticks : List Tick) (polls : Bool) (idleTimeoutMs : ℤ) : Reader where
  ticks := ticks
  polls := polls
  mIdleTimeoutMs := idleTimeoutMs
  mBuffer := List.replicate kReadBufferSize 0
  mAvailable := 0
  mOffset := 0
  size_eq := List.length_replicate
  available_le := Nat.zero_le _

def bufferedSize (r : Reader) : ℕ := r.mAvailable - r.mOffset

def buffered (r : Reader) : Bytes := (r.mBuffer.take r.mAvailable).drop r.mOffset

def consume (r : Reader) (n : ℕ) : Reader := { r with mOffset := r.mOffset + n }

def receive (r : Reader) (segment : Segment) (ticks : List Tick) : Reader where
  ticks := ticks
  polls := r.polls
  mIdleTimeoutMs := r.mIdleTimeoutMs
  mBuffer := segment.bytes ++ r.mBuffer.drop segment.bytes.length
  mAvailable := segment.bytes.length
  mOffset := 0
  size_eq := by
    have := segment.le_size
    have := r.size_eq
    simp only [List.length_append, List.length_drop]
    omega
  available_le := segment.le_size

def fillFrom (r : Reader) : List Tick → Except Halt (Bool × Reader)
  | [] => .error .waiting
  | t :: ts =>
    if r.polls && t.canceled then .error (.failed .canceled [])
    else match t.recv with
      | .data segment => .ok (false, r.receive segment ts)
      | .closed => .ok (true, { r with ticks := t :: ts })
      | .again elapsedMs =>
        if r.mIdleTimeoutMs ≤ elapsedMs then .error (.failed .io (ascii "timed out waiting for data"))
        else r.fillFrom ts
      | .broken error => .error (.failed .io error)

/-- `true` in the result is the `eof` flag. The end of the stream stays where it is. -/
def fill (r : Reader) : Except Halt (Bool × Reader) := r.fillFrom r.ticks

theorem fillFrom_data (r : Reader) (ts : List Tick) (r' : Reader) (h : r.fillFrom ts = .ok (false, r')) :
    ∃ segment rest, r' = r.receive segment rest ∧ rest.length < ts.length := by
  induction ts with
  | nil => simp [fillFrom] at h
  | cons t ts ih =>
    unfold fillFrom at h
    split at h
    · simp at h
    · split at h
      · rename_i segment _
        simp only [Except.ok.injEq, Prod.mk.injEq, true_and] at h
        exact ⟨segment, ts, h.symm, by simp⟩
      · simp at h
      · split at h
        · simp at h
        · obtain ⟨segment, rest, he, hl⟩ := ih h
          exact ⟨segment, rest, he, by simp only [List.length_cons]; omega⟩
      · simp at h

theorem fill_data {r r' : Reader} (h : r.fill = .ok (false, r')) :
    ∃ segment rest, r' = r.receive segment rest ∧ rest.length < r.ticks.length :=
  fillFrom_data r r.ticks r' h

theorem fill_ticks {r r' : Reader} (h : r.fill = .ok (false, r')) : r'.ticks.length < r.ticks.length := by
  obtain ⟨segment, rest, rfl, hl⟩ := fill_data h
  exact hl

def chomp (line : Bytes) : Bytes := if line.getLast? = some 13 then line.dropLast else line

inductive Scan
  | line (line : Bytes) (used : ℕ)
  | tooLong
  | more (line : Bytes)

def scan (line : Bytes) (used : ℕ) : Bytes → Scan
  | [] => .more line
  | c :: cs =>
    if c = 10 then .line (chomp line) (used + 1)
    else if kMaxLineLength ≤ line.length then .tooLong
    else scan (line ++ [c]) (used + 1) cs

def readLineFrom (line : Bytes) (r : Reader) : Except Halt (Bytes × Reader) :=
  match scan line 0 r.buffered with
  | .line line used => .ok (line, r.consume used)
  | .tooLong => .error (.failed .io (ascii "response line too long"))
  | .more line =>
    match _h : (r.consume r.bufferedSize).fill with
    | .error halt => .error halt
    | .ok (true, _) => .error (.failed .io (ascii "connection closed mid-header"))
    | .ok (false, r') => readLineFrom line r'
termination_by r.ticks.length
decreasing_by simpa [consume] using fill_ticks _h

def readLine (r : Reader) : Except Halt (Bytes × Reader) := readLineFrom [] r

@[simp] theorem buffered_length (r : Reader) : r.buffered.length = r.bufferedSize := by
  have := r.size_eq
  have := r.available_le
  simp only [buffered, bufferedSize, List.length_drop, List.length_take]
  omega

@[simp] theorem buffered_consume (r : Reader) (n : ℕ) : (r.consume n).buffered = r.buffered.drop n := by
  simp [buffered, consume, List.drop_drop]

end Reader

end BinderDownload.Http
