import BinderDownload.Service.HttpService

namespace BinderDownload.DownloadService

open Text Files HttpService

def kClientIntervalMs : ℤ := 200

inductive State
  | pending | running | completed | failed | canceled
  deriving DecidableEq

def isTerminal (state : State) : Bool := state = .completed ∨ state = .failed ∨ state = .canceled

inductive ErrorCode
  | badDestination | io | httpService | http | canceled
  deriving DecidableEq

structure Job where
  id : ℤ
  url : Bytes
  destPath : Bytes
  callback : Bool
  url_ne : url ≠ []
  dest_ne : destPath ≠ []
  dest_file : destPath.getLast? ≠ some 47

def Job.partPath (job : Job) : Bytes := partOf job.destPath

def enqueue (id : ℤ) (url destPath : Bytes) (callback : Bool) : Except (ErrorCode × Bytes) Job :=
  if hu : url = [] then .error (.http, ascii "empty url")
  else if hd : destPath = [] ∨ destPath.getLast? = some 47 then
    .error (.badDestination, ascii "destPath must name a file: \"" ++ destPath ++ ascii "\"")
  else .ok ⟨id, url, destPath, callback, hu, fun h => hd (.inl h), fun h => hd (.inr h)⟩

inductive ClientCall
  | started (url : Bytes) (totalBytes resumedFrom : ℤ)
  | progress (downloadedBytes totalBytes : ℤ) (percent : Option ℤ) (bytesPerSecond : ℤ)
  | completed (path : Bytes) (totalBytes elapsedMs : ℤ)
  | failed (code : ErrorCode) (message : Bytes)
  | canceled (downloadedBytes : ℤ)
  deriving DecidableEq

structure Counters where
  downloaded : ℤ := 0
  total : ℤ := -1
  resumedFrom : ℤ := 0
  mLastBytes : ℤ := 0
  deriving DecidableEq

def int64 (n : ℤ) : Option ℤ := if -2 ^ 63 ≤ n ∧ n < 2 ^ 63 then some n else none

def percent (done knownTotal : ℤ) : Option ℤ :=
  if 0 < knownTotal then (int64 (done * 100)).map (fun n => toInt32 (n.tdiv knownTotal)) else some (-1)

/-- `ProgressRelay`: one message of the http service, `sinceMs` after the last report to the client. -/
def Counters.relay (job : Job) (sinceMs : ℤ) (c : Counters) : Progress → Counters × List ClientCall
  | .responseStart _ startOffset totalBytes _ =>
    ({ resumedFrom := startOffset, total := totalBytes, downloaded := startOffset, mLastBytes := startOffset },
      if job.callback then [.started job.url totalBytes startOffset] else [])
  | .bytesReceived received total =>
    let done := c.resumedFrom + received
    let c := { c with downloaded := done, total := if 0 ≤ total then total else c.total }
    if job.callback = false ∨ sinceMs < kClientIntervalMs then (c, [])
    else
      ({ c with mLastBytes := done },
        [.progress done c.total (percent done c.total) (((done - c.mLastBytes) * 1000).tdiv sinceMs)])

def Counters.relayAll (job : Job) (sinceMs : ℕ → ℤ) (at' : ℕ) (c : Counters) :
    List Progress → Counters × List ClientCall
  | [] => (c, [])
  | message :: messages =>
    let (c, calls) := c.relay job (sinceMs at') message
    let (c, more) := c.relayAll job sinceMs (at' + 1) messages
    (c, calls ++ more)

theorem findFrom_range {c : UInt8} {pos next : ℕ} {s : Bytes} (h : findFrom c pos s = some next) :
    pos ≤ next ∧ next < s.length := by
  obtain ⟨i, hi, rfl⟩ := Option.map_eq_some_iff.mp h
  obtain ⟨hlt, -⟩ := List.findIdx?_eq_some_iff_getElem.mp hi
  rw [List.length_drop] at hlt
  omega

def makeDir (built : Bytes) (denied : Bytes → Option Errno) (fs : Fs) : Except Bytes Fs :=
  if built = [] then .ok fs
  else match fs.mkdir built (denied (cStr built)) with
    | .ok fs => .ok fs
    | .error .eexist => .ok fs
    | .error e => .error (ascii "cannot create directory " ++ built ++ ascii ": " ++ strerror e)

def makeDirs (dir : Bytes) (denied : Bytes → Option Errno) (pos : ℕ) (fs : Fs) : Option Bytes × Fs :=
  match _h : findFrom 47 pos dir with
  | none =>
    match makeDir dir denied fs with
    | .error error => (some error, fs)
    | .ok fs => (none, fs)
  | some next =>
    match makeDir (dir.take next) denied fs with
    | .error error => (some error, fs)
    | .ok fs => makeDirs dir denied (next + 1) fs
termination_by dir.length + 1 - pos
decreasing_by
  have := findFrom_range _h
  omega

def ensureParentDir (path : Bytes) (denied : Bytes → Option Errno) (fs : Fs) : Option Bytes × Fs :=
  match rfind 47 path with
  | none => (none, fs)
  | some 0 => (none, fs)
  | some slash => makeDirs (path.take slash) denied 0 fs

/-- What a worker meets outside: the answers of the system calls and of the http service, the two reads
of the cancel flag, how many progress messages are handled before the reply, and the clocks. -/
structure Env where
  mkdirError : Bytes → Option Errno := fun _ => none
  openError : Option Errno := none
  httpError : Option Bytes := none
  requestIdError : Option Bytes := none
  canceledBefore : Bool := false
  dupError : Option Errno := none
  world : World
  transportError : Option Bytes := none
  canceledAfter : Bool := false
  renameError : Option Errno := none
  unlinkDenied : Bool := false
  relayed : ℕ := 0
  sinceMs : ℕ → ℤ := fun _ => 0
  elapsedMs : ℤ := 0

/-- The end of a worker; it is still `running` while `fetchToFd` has not returned. -/
structure Outcome where
  state : State
  message : Bytes := []
  calls : List ClientCall := []
  counters : Counters := {}
  fs : Fs

def fail (job : Job) (env : Env) (counters : Counters) (fs : Fs) (code : ErrorCode) (message : Bytes) : Outcome where
  state := .failed
  message := message
  calls := if job.callback then [.failed code message] else []
  counters := counters
  fs := if fs.fileSize job.partPath = 0 then fs.unlink job.partPath env.unlinkDenied else fs

def cancelDone (job : Job) (counters : Counters) (fs : Fs) : Outcome where
  state := .canceled
  message := ascii "canceled"
  calls := if job.callback then [.canceled counters.downloaded] else []
  counters := counters
  fs := fs

def complete (job : Job) (env : Env) (counters : Counters) (written : ℕ) (fs : Fs) : Outcome :=
  let counters := { counters with downloaded := counters.resumedFrom + written }
  match fs.rename job.partPath job.destPath env.renameError with
  | .error e =>
    fail job env counters fs .io (ascii "rename " ++ job.partPath ++ ascii " -> " ++ job.destPath ++
      ascii " failed: " ++ strerror e)
  | .ok fs =>
    let finalSize : ℤ := fs.fileSize job.destPath
    { state := .completed
      message := ascii "completed"
      calls := if job.callback then [.completed job.destPath finalSize env.elapsedMs] else []
      counters := { counters with total := finalSize }
      fs := fs }

/-- The part of `runTask` behind the call of `fetchToFd`. -/
def settle (job : Job) (env : Env) (counters : Counters) (fs : Fs) : Option Status → Outcome
  | none => { state := .running, counters, fs }
  | some (.failure code message) =>
    if env.canceledAfter ∨ code = .canceled then cancelDone job counters fs
    else fail job env counters fs .http message
  | some (.ok written) => complete job env counters written fs

def transfer (job : Job) (env : Env) (resumeFrom ino : ℕ) (fs : Fs) : Outcome :=
  let fetched := fetchToFd job.url resumeFrom true env.world (fs.data ino)
  let fs := fs.setData ino fetched.bytes
  let counters : Counters := { downloaded := resumeFrom, resumedFrom := resumeFrom }
  let (counters, calls) := counters.relayAll job env.sinceMs 0 (fetched.sent.take env.relayed)
  let outcome := match env.transportError with
    | some text =>
      if env.canceledAfter then cancelDone job counters fs
      else fail job env counters fs .httpService (ascii "fetchToFd transaction failed: " ++ text)
    | none => settle job env counters fs fetched.status
  let (counters, late) :=
    outcome.counters.relayAll job env.sinceMs env.relayed (fetched.sent.drop env.relayed)
  { outcome with calls := calls ++ outcome.calls ++ late, counters }

def runTask (job : Job) (env : Env) (fs : Fs) : Outcome :=
  match ensureParentDir job.destPath env.mkdirError fs with
  | (some error, fs) => fail job env {} fs .badDestination error
  | (none, fs) =>
    let resumeFrom := fs.fileSize job.partPath
    let counters : Counters := { downloaded := resumeFrom, resumedFrom := resumeFrom }
    match fs.openWrite job.partPath env.openError with
    | .error e =>
      fail job env counters fs .io (ascii "cannot open " ++ job.partPath ++ ascii ": " ++ strerror e)
    | .ok (ino, fs) =>
      match env.httpError with
      | some error => fail job env counters fs .httpService error
      | none =>
        match env.requestIdError with
        | some error => fail job env counters fs .httpService (ascii "newRequestId failed: " ++ error)
        | none =>
          if env.canceledBefore then cancelDone job counters fs
          else match env.dupError with
            | some e => fail job env counters fs .io (ascii "dup failed: " ++ strerror e)
            | none => transfer job env resumeFrom ino fs

end BinderDownload.DownloadService
