import BinderDownload.Lib.Run
import BinderDownload.Service.Attempt
import BinderDownload.Files.Frame

/-!
Any number of workers and their transfers on one file system. Each system call is a step of its own, and
the steps of the workers and of the http service come in any order.
-/

namespace BinderDownload.DownloadService.Workers

open Text Files HttpService

/-- The content of a file, and for each byte the task whose transfer wrote it. -/
structure Cell where
  bytes : Bytes
  writers : List (Option ℕ)
  deriving DecidableEq

def Cell.empty : Cell := ⟨[], []⟩

def Cell.write (cell : Cell) (task pos : ℕ) (bs : Bytes) : Cell :=
  ⟨overlay 0 cell.bytes pos bs, overlay none cell.writers pos (List.replicate bs.length (some task))⟩

/-- What comes next for a worker, or for the http service on its behalf. -/
inductive Phase
  | pending
  | parents (pos : ℕ)
  | measure
  | openPart
  | handOver (ino : ℕ)
  | respond (ino : ℕ)
  | truncate (ino : ℕ)
  | body (ino pos : ℕ) (unwritten : Bytes)
  | rename
  | checkEmpty
  | unlink
  | finish (state : State)
  | ended (state : State)
  deriving DecidableEq

def Phase.active : Phase → Bool
  | .pending | .finish _ | .ended _ => false
  | _ => true

structure Worker where
  phase : Phase := .pending
  found : Cell := .empty
  resumeFrom : ℕ := 0
  startOffset : ℕ := 0
  received : Bytes := []
  moved : Option Cell := none

structure Shared where
  fs : Fs
  writers : ℕ → List (Option ℕ)
  worker : ℕ → Worker

def initial (fs : Fs) : Shared where
  fs := fs
  writers := fun ino => List.replicate (fs.data ino).length none
  worker := fun _ => {}

namespace Shared

def cell (s : Shared) (ino : ℕ) : Cell := ⟨s.fs.data ino, s.writers ino⟩

def setCell (s : Shared) (ino : ℕ) (cell : Cell) : Shared :=
  { s with fs := s.fs.setData ino cell.bytes, writers := Function.update s.writers ino cell.writers }

def cellAt (s : Shared) (path : Bytes) : Cell :=
  match s.fs.node (locate s.fs.cwd path) with
  | some (.file ino) => s.cell ino
  | _ => .empty

def setWorker (s : Shared) (task : ℕ) (worker : Worker) : Shared :=
  { s with worker := Function.update s.worker task worker }

def goto (s : Shared) (task : ℕ) (phase : Phase) : Shared := s.setWorker task { s.worker task with phase }

end Shared

@[simp] theorem setWorker_self (s : Shared) (task : ℕ) (w : Worker) : (s.setWorker task w).worker task = w :=
  Function.update_self _ _ _

@[simp] theorem goto_self (s : Shared) (task : ℕ) (phase : Phase) :
    (s.goto task phase).worker task = { s.worker task with phase } := Function.update_self _ _ _

@[simp] theorem setCell_worker (s : Shared) (ino : ℕ) (cell : Cell) : (s.setCell ino cell).worker = s.worker := rfl

theorem goto_phase (s : Shared) (task : ℕ) (phase : Phase) : ((s.goto task phase).worker task).phase = phase := by
  rw [goto_self]

@[simp] theorem goto_fs (s : Shared) (task : ℕ) (phase : Phase) : (s.goto task phase).fs = s.fs := rfl

def parentDir (destPath : Bytes) : Option Bytes :=
  match rfind 47 destPath with
  | none => none
  | some 0 => none
  | some slash => some (destPath.take slash)

inductive Event
  | start
  | mkdir (denied : Option Errno)
  | measure
  | openPart (denied : Option Errno)
  | refuse
  | skip
  | fetchToFd
  | onHeaders (startOffset : ℕ)
  | ftruncate
  | onBody (data : Bytes)
  | write (n : ℕ+)
  | succeed
  | abort (canceled : Bool)
  | rename (denied : Option Errno)
  | checkEmpty
  | unlink (denied : Bool)
  | finish
  deriving DecidableEq

def mkdirStep (job : Job) (task pos : ℕ) (denied : Option Errno) (s : Shared) : Option Shared :=
  (parentDir job.destPath).map (fun dir =>
    let next := findFrom 47 pos dir
    match makeDir (dir.take (next.getD dir.length)) (fun _ => denied) s.fs with
    | .error _ => s.goto task .checkEmpty
    | .ok fs => { s with fs }.goto task (match next with
      | none => .measure
      | some next => .parents (next + 1)))

def openStep (job : Job) (task : ℕ) (denied : Option Errno) (s : Shared) : Shared :=
  match s.fs.openWrite job.partPath denied with
  | .error _ => s.goto task .checkEmpty
  | .ok (ino, fs) =>
    let writers := if ino = s.fs.fresh then Function.update s.writers ino [] else s.writers
    { s with fs, writers }.goto task (.handOver ino)

def headersStep (task ino startOffset : ℕ) (s : Shared) : Shared :=
  let worker := { s.worker task with startOffset, received := [] }
  if startOffset = 0 ∧ 0 < worker.resumeFrom then s.setWorker task { worker with phase := .truncate ino }
  else s.setWorker task { worker with phase := .body ino startOffset [] }

def renameStep (job : Job) (task : ℕ) (denied : Option Errno) (s : Shared) : Shared :=
  match s.fs.rename job.partPath job.destPath denied with
  | .error _ => s.goto task .checkEmpty
  | .ok fs =>
    { s with fs }.setWorker task
      { s.worker task with phase := .finish .completed, moved := some (s.cellAt job.partPath) }

def step (jobs : ℕ → Job) (s : Shared) (action : ℕ × Event) : Option Shared :=
  let task := action.1
  let job := jobs task
  let worker := s.worker task
  match worker.phase, action.2 with
  | .pending, .start =>
    some (s.goto task (if (parentDir job.destPath).isSome then .parents 0 else .measure))
  | .parents pos, .mkdir denied => mkdirStep job task pos denied s
  | .measure, .measure =>
    some (s.setWorker task { worker with
      phase := .openPart, found := s.cellAt job.partPath, resumeFrom := s.fs.fileSize job.partPath })
  | .openPart, .openPart denied => some (openStep job task denied s)
  | .handOver _, .refuse => some (s.goto task .checkEmpty)
  | .handOver _, .skip => some (s.goto task (.finish .canceled))
  | .handOver ino, .fetchToFd => some (s.goto task (.respond ino))
  | .respond ino, .onHeaders startOffset => some (headersStep task ino startOffset s)
  | .truncate ino, .ftruncate => some (s.setCell ino .empty |>.goto task (.body ino 0 []))
  | .body ino pos [], .onBody data =>
    some (s.setWorker task { worker with phase := .body ino pos data, received := worker.received ++ data })
  | .body ino pos (b :: bs), .write n =>
    let data := (b :: bs).take n
    some (s.setCell ino ((s.cell ino).write task pos data) |>.goto task
      (.body ino (pos + data.length) ((b :: bs).drop n)))
  | .body _ _ [], .succeed => some (s.goto task .rename)
  | .respond _, .abort canceled | .truncate _, .abort canceled | .body _ _ _, .abort canceled =>
    some (s.goto task (if canceled then .finish .canceled else .checkEmpty))
  | .rename, .rename denied => some (renameStep job task denied s)
  | .checkEmpty, .checkEmpty =>
    some (s.goto task (if s.fs.fileSize job.partPath = 0 then .unlink else .finish .failed))
  | .unlink, .unlink denied =>
    some ({ s with fs := s.fs.unlink job.partPath denied }.goto task (.finish .failed))
  | .finish state, .finish => some (s.goto task (.ended state))
  | _, _ => none

end BinderDownload.DownloadService.Workers
