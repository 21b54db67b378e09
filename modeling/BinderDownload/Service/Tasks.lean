import BinderDownload.Lib.Run
import BinderDownload.Service.DownloadService

/-!
The task table, with one access to the shared state in each step. The worker of a task and its relay take
their steps in any order; the relay handles the oneway messages of the http service one after the other,
in the order in which they were sent. The answers of the file system, of the http service and of the
clocks come with the steps.
-/

namespace BinderDownload.DownloadService.Tasks

open Text Files HttpService

inductive Ending
  | failed (code : ErrorCode) (message : Bytes)
  | canceled (done : ℤ)
  | completed (finalSize elapsed : ℤ)
  deriving DecidableEq

namespace Ending

def state : Ending → State
  | failed _ _ => .failed
  | canceled _ => .canceled
  | completed _ _ => .completed

def message : Ending → Bytes
  | failed _ message => message
  | canceled _ => ascii "canceled"
  | completed _ _ => ascii "completed"

def call (job : Job) : Ending → ClientCall
  | failed code message => .failed code message
  | canceled done => .canceled done
  | completed finalSize elapsed => .completed job.destPath finalSize elapsed

def callback (job : Job) (e : Ending) : List ClientCall := if job.callback then [e.call job] else []

end Ending

inductive Reply
  | status (status : Status)
  | lost (text : Bytes)
  deriving DecidableEq

/-- The next thing a worker does. While it is at `reply` it waits for the http service. -/
inductive WorkerAt
  | start | parents | measure | setDownloaded | setResumedFrom | openPart | httpService | newRequestId
  | publish (requestId : ℤ)
  | check | dup | fetchToFd | reply
  | judge (reply : Reply)
  | load (written : ℕ)
  | setOnDisk (totalOnDisk : ℤ)
  | rename | size
  | setTotal (finalSize elapsed : ℤ)
  | discard (code : ErrorCode) (message : Bytes)
  | count
  | message (e : Ending)
  | store (e : Ending)
  | callback (e : Ending)
  | done (e : Ending)
  deriving DecidableEq

inductive RelayAt
  | idle
  | startTotal (startOffset totalBytes : ℤ)
  | startDownloaded (startOffset totalBytes : ℤ)
  | startWindow (startOffset totalBytes : ℤ)
  | startCall (startOffset totalBytes : ℤ)
  | bytesDownloaded (done total : ℤ)
  | bytesTotal (done total : ℤ)
  | bytesWindow (done : ℤ)
  | bytesLoad (done bytesPerSecond : ℤ)
  | bytesCall (done bytesPerSecond knownTotal : ℤ)
  deriving DecidableEq

deriving instance DecidableEq for Job

structure Task where
  job : Job
  state : State := .pending
  message : Bytes := []
  counters : Counters := {}
  httpRequestId : ℤ := -1
  canceled : Bool := false
  worker : WorkerAt := .start
  resumeFrom : ℕ := 0
  relay : RelayAt := .idle
  inFlight : List Progress := []
  calls : List ClientCall := []
  deriving DecidableEq

namespace Task

def goto (d : Task) (at' : WorkerAt) : Task := { d with worker := at' }

def setDownloaded (d : Task) (n : ℤ) : Task := { d with counters := { d.counters with downloaded := n } }

def setTotal (d : Task) (n : ℤ) : Task := { d with counters := { d.counters with total := n } }

def setResumedFrom (d : Task) (n : ℤ) : Task := { d with counters := { d.counters with resumedFrom := n } }

def setLastBytes (d : Task) (n : ℤ) : Task := { d with counters := { d.counters with mLastBytes := n } }

def relayTo (d : Task) (at' : RelayAt) : Task := { d with relay := at' }

def tell (d : Task) (calls : List ClientCall) : Task := { d with calls := d.calls ++ calls }

end Task

inductive Event
  | go
  | parents (error : Option Bytes)
  | measure (resumeFrom : ℕ)
  | openPart (denied : Option Errno)
  | httpService (error : Option Bytes)
  | newRequestId (answer : Except Bytes ℤ)
  | dup (denied : Option Errno)
  | send (message : Progress)
  | reply (reply : Reply)
  | rename (denied : Option Errno)
  | size (finalSize elapsed : ℤ)
  | relay (sinceMs : ℤ)

/-- The part of `runTask` behind the reply, up to the first access after the look at the status. -/
def Task.judge (d : Task) : Reply → WorkerAt
  | .status (.ok written) => .load written
  | .status (.failure code message) =>
    if d.canceled ∨ code = .canceled then .count else .discard .http message
  | .lost text =>
    if d.canceled then .count else .discard .httpService (ascii "fetchToFd transaction failed: " ++ text)

def Task.workerStep (d : Task) (event : Event) : Option Task :=
  match d.worker, event with
  | .start, .go => some { d.goto .parents with state := .running }
  | .parents, .parents none => some (d.goto .measure)
  | .parents, .parents (some error) => some (d.goto (.discard .badDestination error))
  | .measure, .measure resumeFrom => some { d.goto .setDownloaded with resumeFrom }
  | .setDownloaded, .go => some ((d.setDownloaded d.resumeFrom).goto .setResumedFrom)
  | .setResumedFrom, .go => some ((d.setResumedFrom d.resumeFrom).goto .openPart)
  | .openPart, .openPart none => some (d.goto .httpService)
  | .openPart, .openPart (some e) =>
    some (d.goto (.discard .io (ascii "cannot open " ++ d.job.partPath ++ ascii ": " ++ strerror e)))
  | .httpService, .httpService none => some (d.goto .newRequestId)
  | .httpService, .httpService (some error) => some (d.goto (.discard .httpService error))
  | .newRequestId, .newRequestId (.ok requestId) => some (d.goto (.publish requestId))
  | .newRequestId, .newRequestId (.error text) =>
    some (d.goto (.discard .httpService (ascii "newRequestId failed: " ++ text)))
  | .publish requestId, .go => some { d.goto .check with httpRequestId := requestId }
  | .check, .go => some (d.goto (if d.canceled then .count else .dup))
  | .dup, .dup none => some (d.goto .fetchToFd)
  | .dup, .dup (some e) => some (d.goto (.discard .io (ascii "dup failed: " ++ strerror e)))
  | .fetchToFd, .go => some (d.goto .reply)
  | .reply, .reply reply => some (d.goto (.judge reply))
  | .judge reply, .go => some (d.goto (d.judge reply))
  | .load written, .go => some (d.goto (.setOnDisk (d.counters.resumedFrom + written)))
  | .setOnDisk totalOnDisk, .go => some ((d.setDownloaded totalOnDisk).goto .rename)
  | .rename, .rename none => some (d.goto .size)
  | .rename, .rename (some e) =>
    some (d.goto (.discard .io (ascii "rename " ++ d.job.partPath ++ ascii " -> " ++ d.job.destPath ++
      ascii " failed: " ++ strerror e)))
  | .size, .size finalSize elapsed => some (d.goto (.setTotal finalSize elapsed))
  | .setTotal finalSize elapsed, .go => some ((d.setTotal finalSize).goto (.message (.completed finalSize elapsed)))
  -- both closures of `runTask` end in `finish` and one call on the client
  | .discard code message, .go => some (d.goto (.message (.failed code message)))
  | .count, .go => some (d.goto (.message (.canceled d.counters.downloaded)))
  | .message e, .go => some { d.goto (.store e) with message := e.message }
  | .store e, .go => some { d.goto (.callback e) with state := e.state }
  | .callback e, .go => some ((d.tell (e.callback d.job)).goto (.done e))
  | _, _ => none

def Task.receive (d : Task) : Option Task :=
  match d.inFlight with
  | [] => none
  | .responseStart _ startOffset totalBytes _ :: rest =>
    some ({ d.setResumedFrom startOffset with inFlight := rest }.relayTo (.startTotal startOffset totalBytes))
  | .bytesReceived received total :: rest =>
    some ({ d with inFlight := rest }.relayTo (.bytesDownloaded (d.counters.resumedFrom + received) total))

def Task.relayStep (d : Task) (sinceMs : ℤ) : Option Task :=
  match d.relay with
  | .idle => d.receive
  | .startTotal startOffset totalBytes =>
    some ((d.setTotal totalBytes).relayTo (.startDownloaded startOffset totalBytes))
  | .startDownloaded startOffset totalBytes =>
    some ((d.setDownloaded startOffset).relayTo (.startWindow startOffset totalBytes))
  | .startWindow startOffset totalBytes =>
    some ((d.setLastBytes startOffset).relayTo (if d.job.callback then .startCall startOffset totalBytes else .idle))
  | .startCall startOffset totalBytes => some ((d.tell [.started d.job.url totalBytes startOffset]).relayTo .idle)
  | .bytesDownloaded done total => some ((d.setDownloaded done).relayTo (.bytesTotal done total))
  | .bytesTotal done total =>
    let d := if 0 ≤ total then d.setTotal total else d
    some (d.relayTo (if d.job.callback then .bytesWindow done else .idle))
  | .bytesWindow done =>
    if sinceMs < kClientIntervalMs then some (d.relayTo .idle)
    else
      some ((d.setLastBytes done).relayTo (.bytesLoad done (((done - d.counters.mLastBytes) * 1000).tdiv sinceMs)))
  | .bytesLoad done bytesPerSecond => some (d.relayTo (.bytesCall done bytesPerSecond d.counters.total))
  | .bytesCall done bytesPerSecond knownTotal =>
    some ((d.tell [.progress done knownTotal (percent done knownTotal) bytesPerSecond]).relayTo .idle)

def Task.step (d : Task) : Event → Option Task
  | .send message => if d.worker = .reply then some { d with inFlight := d.inFlight ++ [message] } else none
  | .relay sinceMs => d.relayStep sinceMs
  | event => d.workerStep event

def stateName : State → Bytes
  | .pending => ascii "pending"
  | .running => ascii "running"
  | .completed => ascii "completed"
  | .failed => ascii "failed"
  | .canceled => ascii "canceled"

inductive CallerAt
  | findTask | look | flag | load
  | send (requestId : ℤ)
  | returned
  deriving DecidableEq

structure Service where
  mTasks : ℤ → Option Task
  mOrder : List ℤ
  mNextId : ℤ
  caller : ℕ → CallerAt

def initial : Service where
  mTasks := fun _ => none
  mOrder := []
  mNextId := 1
  caller := fun _ => .findTask

namespace Service

def setTask (s : Service) (id : ℤ) (d : Task) : Service := { s with mTasks := Function.update s.mTasks id (some d) }

def setCaller (s : Service) (i : ℕ) (at' : CallerAt) : Service := { s with caller := Function.update s.caller i at' }

def enqueue (s : Service) (url destPath : Bytes) (callback : Bool) : Except (ErrorCode × Bytes) ℤ × Service :=
  match DownloadService.enqueue s.mNextId url destPath callback with
  | .error e => (.error e, s)
  | .ok job =>
    (.ok s.mNextId,
      { s.setTask s.mNextId { job } with mOrder := s.mOrder ++ [s.mNextId], mNextId := toInt32 (s.mNextId + 1) })

def getState (s : Service) (downloadId : ℤ) : Option State := (s.mTasks downloadId).map Task.state

def getDownloadIds (s : Service) : List ℤ := s.mOrder

def describe (s : Service) (downloadId : ℤ) : Bytes :=
  match s.mTasks downloadId with
  | none => ascii "#" ++ toText downloadId ++ ascii " unknown"
  | some d =>
    ascii "#" ++ toText d.job.id ++ ascii " " ++ stateName d.state ++ ascii " " ++ toText d.counters.downloaded ++
      ascii "/" ++ (if d.counters.total < 0 then ascii "?" else toText d.counters.total) ++ ascii " bytes " ++
      d.job.url ++ ascii " -> " ++ d.job.destPath ++
      (if d.message = [] then [] else ascii " (" ++ d.message ++ ascii ")")

def cancelStep (targets : ℕ → ℤ) (s : Service) (i : ℕ) : Option Service :=
  match s.caller i with
  | .findTask => some (s.setCaller i (if (s.mTasks (targets i)).isSome then .look else .returned))
  | .look =>
    (s.mTasks (targets i)).map (fun d => s.setCaller i (if isTerminal d.state then .returned else .flag))
  | .flag =>
    (s.mTasks (targets i)).map (fun d => s.setTask (targets i) { d with canceled := true } |>.setCaller i .load)
  | .load =>
    (s.mTasks (targets i)).map (fun d =>
      s.setCaller i (if 0 ≤ d.httpRequestId then .send d.httpRequestId else .returned))
  | .send _ => some (s.setCaller i .returned)
  | .returned => none

end Service

inductive Action
  | enqueue (url destPath : Bytes) (callback : Bool)
  | cancel (i : ℕ)
  | getState (downloadId : ℤ)
  | describe (downloadId : ℤ)
  | getDownloadIds
  | task (id : ℤ) (event : Event)

def Action.enqueues : Action → Bool
  | .enqueue _ _ _ => true
  | _ => false

/-- The three queries only read: whatever they see between the steps of the others, they leave no trace. -/
def step (targets : ℕ → ℤ) (s : Service) : Action → Option Service
  | .enqueue url destPath callback => some (s.enqueue url destPath callback).2
  | .cancel i => s.cancelStep targets i
  | .getState _ | .describe _ | .getDownloadIds => some s
  | .task id event => (s.mTasks id).bind (fun d => (d.step event).map (s.setTask id))

end BinderDownload.DownloadService.Tasks
