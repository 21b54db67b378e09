import BinderDownload.Lib.Run
import BinderDownload.Service.DownloadService

namespace BinderDownload.DownloadService.Await

open Text

structure Ending where
  state : State
  message : Bytes
  terminal : isTerminal state = true

structure Call where
  downloadId : ℤ
  timeoutMs : ℤ

structure Task where
  state : State := .pending
  message : Bytes := []

/-- The next thing a worker does; the last five are the steps of `finish`. -/
inductive WorkerAt
  | enqueue | start | work
  | lock | message | unlock | store | notify
  | done
  deriving DecidableEq

/-- The next thing a caller of `awaitCompletion` does. A check is the last one after a timeout. -/
inductive CallerAt
  | find | look | lock
  | check (last : Bool) | block | blocked | relock (last : Bool)
  | read | leave (state : State)
  | returned (state : Option State)
  deriving DecidableEq

inductive Thread
  | worker (id : ℤ)
  | caller (i : ℕ)
  deriving DecidableEq

structure Shared where
  tasks : ℤ → Option Task
  mNextId : ℤ
  mLock : Option Thread
  worker : ℤ → WorkerAt
  caller : ℕ → CallerAt

def initial : Shared where
  tasks := fun _ => none
  mNextId := 1
  mLock := none
  worker := fun _ => .enqueue
  caller := fun _ => .find

namespace Shared

def setWorker (s : Shared) (id : ℤ) (at' : WorkerAt) : Shared := { s with worker := Function.update s.worker id at' }

def setCaller (s : Shared) (i : ℕ) (at' : CallerAt) : Shared := { s with caller := Function.update s.caller i at' }

def setTask (s : Shared) (id : ℤ) (task : Task) : Shared :=
  { s with tasks := Function.update s.tasks id (some task) }

def acquire (s : Shared) (thread : Thread) : Option Shared :=
  if s.mLock = none then some { s with mLock := some thread } else none

def release (s : Shared) : Shared := { s with mLock := none }

def notifyAll (s : Shared) : Shared :=
  { s with caller := fun i => if s.caller i = .blocked then .relock false else s.caller i }

end Shared

def workerStep (endings : ℤ → Ending) (s : Shared) (id : ℤ) : Option Shared :=
  match s.worker id with
  | .enqueue =>
    if s.mLock = none ∧ s.mNextId = id then some ({ s with mNextId := id + 1 }.setTask id {} |>.setWorker id .start)
    else none
  | .start => (s.tasks id).map (fun task => s.setTask id { task with state := .running } |>.setWorker id .work)
  | .work => some (s.setWorker id .lock)
  | .lock => (s.acquire (.worker id)).map (·.setWorker id .message)
  | .message =>
    (s.tasks id).map (fun task => s.setTask id { task with message := (endings id).message } |>.setWorker id .unlock)
  | .unlock => some (s.release.setWorker id .store)
  | .store =>
    (s.tasks id).map (fun task => s.setTask id { task with state := (endings id).state } |>.setWorker id .notify)
  | .notify => some (s.notifyAll.setWorker id .done)
  | .done => none

def callerStep (calls : ℕ → Call) (s : Shared) (i : ℕ) : Option Shared :=
  match s.caller i with
  | .find => (s.acquire (.caller i)).map (·.setCaller i .look)
  | .look =>
    some (s.release.setCaller i (if (s.tasks (calls i).downloadId).isSome then .lock else .returned none))
  | .lock => (s.acquire (.caller i)).map (·.setCaller i (.check false))
  | .check last =>
    (s.tasks (calls i).downloadId).map (fun task =>
      s.setCaller i (if isTerminal task.state ∨ last then .read else .block))
  | .block => some (s.release.setCaller i .blocked)
  | .blocked => none
  | .relock last => (s.acquire (.caller i)).map (·.setCaller i (.check last))
  | .read => (s.tasks (calls i).downloadId).map (fun task => s.setCaller i (.leave task.state))
  | .leave state => some (s.release.setCaller i (.returned (some state)))
  | .returned _ => none

inductive Action
  | worker (id : ℤ)
  | caller (i : ℕ)
  | wake (i : ℕ)
  | expire (i : ℕ)
  deriving DecidableEq

/-- Besides the threads, a blocked caller may wake without a reason, or because its time is up. -/
def step (endings : ℤ → Ending) (calls : ℕ → Call) (s : Shared) : Action → Option Shared
  | .worker id => workerStep endings s id
  | .caller i => callerStep calls s i
  | .wake i => if s.caller i = .blocked then some (s.setCaller i (.relock false)) else none
  | .expire i =>
    if s.caller i = .blocked ∧ 0 < (calls i).timeoutMs then some (s.setCaller i (.relock true)) else none

end BinderDownload.DownloadService.Await
