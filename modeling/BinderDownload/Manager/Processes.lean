import BinderDownload.Lib.Calls

namespace BinderDownload.Manager

inductive Child
  | gServiceManager
  | gHttp
  | gDownload
  deriving DecidableEq

inductive Signal
  | sigint
  | sigterm
  deriving DecidableEq

def Signal.number : Signal → ℤ
  | .sigint => 2
  | .sigterm => 15

inductive Event
  | forked (pid : ℤ)
  | reaped (pid : ℤ)
  | signaled (pid : ℤ)
  deriving DecidableEq

def unreaped : List Event → List ℤ
  | [] => []
  | .forked pid :: log => pid :: unreaped log
  | .reaped pid :: log => (unreaped log).filter (fun p => p != pid)
  | .signaled _ :: log => unreaped log

/-- `theirs` is the pid of a servicemanager that runs already, and `onSignal` is the handler of the
signals in `handled`. -/
structure Process where
  pid : Child → ℤ := fun _ => -1
  gOwnServiceManager : Bool := false
  handled : List Signal := []
  log : List Event := []
  theirs : Option ℤ := none

namespace Process

def store (s : Process) (child : Child) (pid : ℤ) : Process := { s with pid := Function.update s.pid child pid }

def note (s : Process) (event : Event) : Process := { s with log := event :: s.log }

section Fields

variable (s : Process) (child : Child) (pid : ℤ) (event : Event)

@[simp] theorem store_pid : (s.store child pid).pid = Function.update s.pid child pid := rfl
@[simp] theorem store_own : (s.store child pid).gOwnServiceManager = s.gOwnServiceManager := rfl
@[simp] theorem store_log : (s.store child pid).log = s.log := rfl
@[simp] theorem note_pid : (s.note event).pid = s.pid := rfl
@[simp] theorem note_own : (s.note event).gOwnServiceManager = s.gOwnServiceManager := rfl
@[simp] theorem note_log : (s.note event).log = event :: s.log := rfl

end Fields

end Process

inductive Question
  | binderIsReady
  | serviceManagerIsUp
  | findBinary
  | selfPath
  | checkService (child : Child)

/-- `wait` stands for the call and its retries after `EINTR`. -/
inductive Call
  | ask (question : Question)
  | signal (sig : Signal)
  | fork
  | waitpid (pid : ℤ) (nohang : Bool)
  | wait
  | kill (pid : ℤ)
  | load (child : Child)
  | store (child : Child) (pid : ℤ)
  | ownsServiceManager
  | ownServiceManager

/-- The state after a call that is answered with `a`, unless it cannot be answered so. The kernel does
not hand out the pid of a process that has not been reaped. -/
def answer (s : Process) : Call → ℤ → Option Process
  | .ask _, _ => some s
  | .signal sig, _ => some { s with handled := sig :: s.handled }
  | .fork, a =>
    if a = -1 then some s
    else if 0 < a ∧ a ∉ unreaped s.log ∧ s.theirs ≠ some a then some (s.note (.forked a))
    else none
  | .waitpid pid nohang, a =>
    if pid ∈ unreaped s.log then
      if a = pid then some (s.note (.reaped pid)) else if nohang ∧ a = 0 then some s else none
    else if a = -1 then some s
    else none
  | .wait, a =>
    if a ∈ unreaped s.log then some (s.note (.reaped a))
    else if a = -1 ∧ unreaped s.log = [] then some s
    else none
  | .kill pid, _ => some (s.note (.signaled pid))
  | .load child, a => if a = s.pid child then some s else none
  | .store child pid, _ => some (s.store child pid)
  | .ownsServiceManager, a => if a = (if s.gOwnServiceManager then 1 else 0) then some s else none
  | .ownServiceManager, _ => some { s with gOwnServiceManager := true }

abbrev Program := Calls Call ℤ

open Calls

def ask (question : Question) : Program Bool := do
  let a ← perform (.ask question)
  return a ≠ 0

def spawn : Program ℤ := perform .fork

def stillAlive (pid : ℤ) : Program Bool := do
  let a ← perform (.waitpid pid true)
  return a = 0

def terminate (child : Child) : Program Unit := do
  let pid ← perform (.load child)
  if pid ≤ 0 then return ()
  else
    let _ ← perform (.kill pid)
    let _ ← perform (.waitpid pid false)
    let _ ← perform (.store child (-1))
    return ()

def cleanup : Program Unit := do
  terminate .gDownload
  terminate .gHttp
  let own ← perform .ownsServiceManager
  if own ≠ 0 then terminate .gServiceManager else return ()

def onSignal (sig : Signal) : Program ℤ := do
  cleanup
  return 128 + sig.number

def awaitServiceManager : ℕ → Program Bool
  | 0 => return false
  | rounds + 1 => do
    let pid ← perform (.load .gServiceManager)
    let alive ← stillAlive pid
    if alive = false then
      let _ ← perform (.store .gServiceManager (-1))
      return false
    else
      let up ← ask .serviceManagerIsUp
      if up then return true else awaitServiceManager rounds

def ensureServiceManager : Program Bool := do
  let up ← ask .serviceManagerIsUp
  if up then return true
  else
    let found ← ask .findBinary
    if found = false then return false
    else
      let pid ← spawn
      let _ ← perform (.store .gServiceManager pid)
      if pid < 0 then return false
      else
        let _ ← perform .ownServiceManager
        awaitServiceManager 20

def awaitService (child : Child) : ℕ → Program Bool
  | 0 => return false
  | rounds + 1 => do
    let pid ← perform (.load child)
    let alive ← stillAlive pid
    if alive = false then
      let _ ← perform (.store child (-1))
      return false
    else
      let registered ← ask (.checkService child)
      if registered then return true else awaitService child rounds

def startService (child : Child) : Program Bool := do
  let self ← ask .selfPath
  if self = false then return false
  else
    let pid ← spawn
    let _ ← perform (.store child pid)
    if pid < 0 then return false else awaitService child 40

def forget (child : Child) (pid : ℤ) : Program Unit := do
  let recorded ← perform (.load child)
  if pid = recorded then
    let _ ← perform (.store child (-1))
    return ()
  else return ()

def supervise : Program ℤ := do
  let pid ← perform .wait
  if pid < 0 then
    cleanup
    return 0
  else
    forget .gServiceManager pid
    forget .gHttp pid
    forget .gDownload pid
    cleanup
    return 1

def startServices : Program Bool := do
  let http ← startService .gHttp
  if http then startService .gDownload else return false

def runManager : Program ℤ := do
  let ready ← ask .binderIsReady
  if ready = false then return 1
  else
    let _ ← perform (.signal .sigint)
    let _ ← perform (.signal .sigterm)
    let up ← ensureServiceManager
    if up = false then
      cleanup
      return 1
    else
      let started ← startServices
      if started = false then
        cleanup
        return 1
      else supervise

structure Machine where
  process : Process
  control : Program ℤ
  blocked : List Signal := []

inductive Move
  | answered (a : ℤ)
  | signal (sig : Signal)

/-- A signal takes the control for good, since `onSignal` does not return. -/
def step (m : Machine) : Move → Option Machine
  | .answered a =>
    (m.control.resume answer m.process a).map (fun t => { m with process := t.1, control := t.2 })
  | .signal sig =>
    match m.control with
    | .pure _ => none
    | .call _ _ =>
      if sig ∈ m.process.handled ∧ sig ∉ m.blocked then
        some { m with control := onSignal sig, blocked := sig :: m.blocked }
      else none

def start (theirs : Option ℤ) : Machine where
  process := { theirs }
  control := runManager

end BinderDownload.Manager
