import BinderDownload.Files.Calls
import BinderDownload.Http.Get

namespace BinderDownload.HttpService

open Text Http Files

def kProgressIntervalMs : ℤ := 150
def kProgressBytes : ℕ := 256 * 1024

structure File where
  bytes : Bytes
  pos : ℕ

def File.write (file : File) (bs : Bytes) : File := ⟨overlay 0 file.bytes file.pos bs, file.pos + bs.length⟩

inductive WriteResult
  | wrote (n : ℕ+)
  | interrupted
  | stopped (error : Bytes)

structure Written where
  ok : Bool
  file : File
  writes : List WriteResult
  error : Bytes := []

/-- When the list of answers is used up, every further `write` takes all it is given. -/
def writeFully (file : File) (data : Bytes) (writes : List WriteResult) : Written :=
  if data = [] then ⟨true, file, writes, []⟩
  else match writes with
    | [] => ⟨true, file.write data, [], []⟩
    | .wrote n :: writes => writeFully (file.write (data.take n)) (data.drop n) writes
    | .interrupted :: writes => writeFully file data writes
    | .stopped error :: writes => ⟨false, file, writes, error⟩

inductive Progress
  | responseStart (statusCode startOffset totalBytes : ℤ) (contentType : Bytes)
  | bytesReceived (received total : ℤ)
  deriving DecidableEq

/-- What `fetchToFd` meets outside: the network, the answers of the system calls on the descriptor, and
the times since the last report at which the body callback looks. -/
structure World where
  net : Net
  descriptor : Bool := true
  seekError : Option Errno := none
  truncateError : Option Errno := none
  writes : List WriteResult := []
  sinceReportMs : List ℤ := []

structure Sink where
  file : File
  writes : List WriteResult
  sinceReportMs : List ℤ
  total : ℤ := -1
  written : ℕ := 0
  reportedAt : ℕ := 0
  writeError : Bytes := []
  sent : List Progress := []

def Sink.send (s : Sink) (callback : Bool) (message : Progress) : Sink :=
  if callback then { s with sent := s.sent ++ [message] } else s

def Sink.onHeaders (world : World) (resumeFrom : ℤ) (callback : Bool) (s : Sink) (info : ResponseInfo) :
    Bool × Sink :=
  let s := { s with total := info.totalBytes }
  let refused := if info.startOffset < 0 then some .einval else world.seekError
  match refused with
  | some e => (false, { s with writeError := ascii "lseek: " ++ strerror e })
  | none =>
    let s := { s with file := ⟨s.file.bytes, info.startOffset.toNat⟩ }
    let start := Progress.responseStart info.statusCode info.startOffset info.totalBytes info.contentType
    if info.startOffset = 0 ∧ 0 < resumeFrom then
      match world.truncateError with
      | some e => (false, { s with writeError := ascii "ftruncate: " ++ strerror e })
      | none => (true, { s with file := ⟨[], s.file.pos⟩ }.send callback start)
    else (true, s.send callback start)

def Sink.onBody (callback : Bool) (s : Sink) (data : Bytes) : Bool × Sink :=
  let done := writeFully s.file data s.writes
  let s := { s with file := done.file, writes := done.writes }
  if done.ok = false then (false, { s with writeError := ascii "write: " ++ done.error })
  else
    let sinceMs := s.sinceReportMs.headD 0
    let s := { s with written := s.written + data.length, sinceReportMs := s.sinceReportMs.tail }
    if callback ∧ (kProgressBytes ≤ s.written - s.reportedAt ∨ kProgressIntervalMs ≤ sinceMs) then
      (true, { s.send callback (.bytesReceived s.written s.total) with reportedAt := s.written })
    else (true, s)

def Sink.calls (world : World) (resumeFrom : ℤ) (callback : Bool) : Callbacks Sink where
  onHeaders := some (Sink.onHeaders world resumeFrom callback)
  onBody := Sink.onBody callback

@[simp] theorem Sink.calls_headers (world : World) (resumeFrom : ℤ) (callback : Bool) (s : Sink)
    (info : ResponseInfo) :
    (calls world resumeFrom callback).headers s info = s.onHeaders world resumeFrom callback info := rfl

@[simp] theorem Sink.calls_onBody (world : World) (resumeFrom : ℤ) (callback : Bool) :
    (calls world resumeFrom callback).onBody = onBody callback := rfl

inductive Status
  | ok (written : ℕ)
  | failure (code : Error) (message : Bytes)
  deriving DecidableEq

structure Fetched where
  status : Option Status
  bytes : Bytes
  sent : List Progress

def Sink.conclude (callback : Bool) : Option Result × Sink → Fetched
  | (none, s) => ⟨none, s.file.bytes, s.sent⟩
  | (some result, s) =>
    if result.error ≠ .ok then
      ⟨some (if s.writeError = [] then .failure result.error result.message else .failure .write s.writeError),
        s.file.bytes, s.sent⟩
    else
      let s := s.send callback (.bytesReceived s.written s.total)
      ⟨some (.ok s.written), s.file.bytes, s.sent⟩

def fetchToFd (url : Bytes) (resumeFrom : ℤ) (callback : Bool) (world : World) (bytes : Bytes) : Fetched :=
  if world.descriptor = false then
    ⟨some (.failure .write (ascii "no file descriptor to write to")), bytes, []⟩
  else
    let resumeFrom := max resumeFrom 0
    let sink : Sink := { file := ⟨bytes, 0⟩, writes := world.writes, sinceReportMs := world.sinceReportMs }
    Sink.conclude callback (get { url, resumeFrom } (Sink.calls world resumeFrom callback) true world.net sink)

theorem File.write_nil (file : File) : file.write [] = file := by
  simp [write]

theorem File.write_append (file : File) (as bs : Bytes) : (file.write as).write bs = file.write (as ++ bs) := by
  simp [write, overlay_append, Nat.add_assoc]

@[simp] theorem Sink.send_file (s : Sink) (callback : Bool) (message : Progress) :
    (s.send callback message).file = s.file := by
  unfold send
  split_ifs <;> rfl

@[simp] theorem Sink.send_written (s : Sink) (callback : Bool) (message : Progress) :
    (s.send callback message).written = s.written := by
  unfold send
  split_ifs <;> rfl

end BinderDownload.HttpService
