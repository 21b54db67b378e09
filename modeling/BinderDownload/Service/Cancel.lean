import BinderDownload.Lib.Run
import BinderDownload.Service.DownloadService
import BinderDownload.Service.Requests

/-!
The workers, the callers of `cancel` and the http service, with one access to the shared state in each
step. The `cancel` messages to the http service are oneway: they are in flight until it handles them, in
any order.
-/

namespace BinderDownload.DownloadService.Cancel

open Text HttpService

inductive WorkerAt
  | enqueue | start | prepare | newRequestId | publish | check | call
  | fetch | transfer | reply
  | finish (state : State)
  | done
  deriving DecidableEq

/-- The request of a task at the http service: its id, when the id was handed out, the `Request` object
that `fetchToFd` polls, and whether `endRequest` was called. -/
structure Transfer where
  requestId : Option ℤ := none
  issuedAt : ℕ := 0
  request : Option ℕ := none
  ended : Bool := false

structure Download where
  worker : WorkerAt := .enqueue
  state : State := .pending
  canceled : Bool := false
  httpRequestId : ℤ := -1
  fetched : Bool := false
  transfer : Transfer := {}

inductive CallerAt
  | enter | flag | load
  | send (requestId : ℤ)
  | finished | ignored
  deriving DecidableEq

structure Shared where
  download : ℤ → Download
  caller : ℕ → CallerAt
  inFlight : List ℤ
  handled : List ℤ
  requests : Requests
  mNextId : ℕ
  now : ℕ

def initial : Shared where
  download := fun _ => {}
  caller := fun _ => .enter
  inFlight := []
  handled := []
  requests := .empty
  mNextId := 1
  now := 0

namespace Shared

def setDownload (s : Shared) (id : ℤ) (d : Download) : Shared :=
  { s with download := Function.update s.download id d }

def setCaller (s : Shared) (i : ℕ) (at' : CallerAt) : Shared := { s with caller := Function.update s.caller i at' }

section Frame

variable (s : Shared) (id : ℤ) (d : Download)

@[simp] theorem setDownload_self : (s.setDownload id d).download id = d := Function.update_self ..

@[simp] theorem setDownload_other {id' : ℤ} (hid : id' ≠ id) : (s.setDownload id d).download id' = s.download id' :=
  Function.update_of_ne hid ..

@[simp] theorem setDownload_requests : (s.setDownload id d).requests = s.requests := rfl

@[simp] theorem setDownload_mNextId : (s.setDownload id d).mNextId = s.mNextId := rfl

@[simp] theorem setDownload_inFlight : (s.setDownload id d).inFlight = s.inFlight := rfl

@[simp] theorem setDownload_handled : (s.setDownload id d).handled = s.handled := rfl

@[simp] theorem setDownload_now : (s.setDownload id d).now = s.now := rfl

end Frame

end Shared

def workerStep (s : Shared) (id : ℤ) (ok : Bool) : Option Shared :=
  let d := s.download id
  match d.worker with
  | .enqueue => some (s.setDownload id { d with worker := .start })
  | .start => some (s.setDownload id { d with worker := .prepare, state := .running })
  | .prepare => some (s.setDownload id { d with worker := if ok then .newRequestId else .finish .failed })
  | .newRequestId =>
    if ok then
      some ({ s with mNextId := s.mNextId + 1 }.setDownload id
        { d with worker := .publish, transfer := { requestId := some (toInt32 s.mNextId), issuedAt := s.now } })
    else some (s.setDownload id { d with worker := .finish .failed })
  | .publish =>
    d.transfer.requestId.map (fun requestId =>
      s.setDownload id { d with worker := .check, httpRequestId := requestId })
  | .check => some (s.setDownload id { d with worker := if d.canceled then .finish .canceled else .call })
  | .call =>
    if ok then some (s.setDownload id { d with worker := .fetch, fetched := true })
    else some (s.setDownload id { d with worker := .finish .failed })
  | .fetch => if ok then none else some (s.setDownload id { d with worker := .reply })
  | .finish state => some (s.setDownload id { d with worker := .done, state := state })
  | .transfer | .reply | .done => none

def callerStep (targets : ℕ → ℤ) (s : Shared) (i : ℕ) : Option Shared :=
  let d := s.download (targets i)
  match s.caller i with
  | .enter => some (s.setCaller i (if d.worker = .enqueue ∨ isTerminal d.state then .ignored else .flag))
  | .flag => some (s.setDownload (targets i) { d with canceled := true } |>.setCaller i .load)
  | .load => some (s.setCaller i (.send d.httpRequestId))
  | .send requestId =>
    some ({ s with inFlight := if 0 ≤ requestId then requestId :: s.inFlight else s.inFlight }.setCaller i .finished)
  | .finished | .ignored => none

inductive Action
  | tick (nanoseconds : ℕ)
  | worker (id : ℤ) (ok : Bool)
  | conclude (id : ℤ) (state : State)
  | caller (i : ℕ)
  | beginRequest (id : ℤ)
  | endRequest (id : ℤ)
  | cancel (requestId : ℤ)
  deriving DecidableEq

def step (targets : ℕ → ℤ) (s : Shared) : Action → Option Shared
  | .tick nanoseconds => some { s with now := s.now + nanoseconds }
  | .worker id ok => workerStep s id ok
  | .conclude id state =>
    if (s.download id).worker = .reply ∧ isTerminal state then
      some (s.setDownload id { s.download id with worker := .finish state })
    else none
  | .caller i => callerStep targets s i
  | .beginRequest id =>
    let d := s.download id
    if d.worker = .fetch then
      d.transfer.requestId.map (fun requestId =>
        let (request, requests) := s.requests.beginRequest s.now requestId
        { s with requests }.setDownload id
          { d with worker := .transfer, transfer := { d.transfer with request := some request } })
    else none
  | .endRequest id =>
    let d := s.download id
    if d.worker = .transfer then
      d.transfer.requestId.map (fun requestId =>
        { s with requests := s.requests.endRequest requestId }.setDownload id
          { d with worker := .reply, transfer := { d.transfer with ended := true } })
    else none
  | .cancel requestId =>
    if requestId ∈ s.inFlight then
      some { s with
        inFlight := s.inFlight.erase requestId
        handled := requestId :: s.handled
        requests := s.requests.cancel s.now requestId }
    else none

/-- Fewer than 2^31 ids are handed out, and the worker calls `fetchToFd` within 60 seconds of its id. -/
def Timely (s : Shared) : Action → Prop
  | .worker id ok =>
    ((s.download id).worker = .newRequestId → (s.mNextId : ℤ) < 2 ^ 31) ∧
      ((s.download id).worker = .call → ok = true →
        s.now - (s.download id).transfer.issuedAt < 60 * 1000000000)
  | _ => True

instance (s : Shared) : ∀ a, Decidable (Timely s a)
  | .worker _ _ => inferInstanceAs (Decidable ((_ → _) ∧ (_ → _ → _)))
  | .tick _ | .conclude _ _ | .caller _ | .beginRequest _ | .endRequest _ | .cancel _ => isTrue trivial

/-- Where a transfer begins whose `cancel` was handled before, the entry of that `cancel` is still there. -/
def Kept (s : Shared) : Action → Prop
  | .beginRequest id => ∀ requestId, (s.download id).transfer.requestId = some requestId →
    requestId ∈ s.handled → (s.requests.mRequests requestId).isSome
  | _ => True

/-- The http service gets to a `fetchToFd` within 60 seconds of its id. -/
def Prompt (s : Shared) : Action → Prop
  | .beginRequest id => s.now - (s.download id).transfer.issuedAt < 60 * 1000000000
  | _ => True

instance (s : Shared) : ∀ a, Decidable (Prompt s a)
  | .beginRequest _ => inferInstanceAs (Decidable (_ < _))
  | .tick _ | .worker _ _ | .conclude _ _ | .caller _ | .endRequest _ | .cancel _ => isTrue trivial

end BinderDownload.DownloadService.Cancel
