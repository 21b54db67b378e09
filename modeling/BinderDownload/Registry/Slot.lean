import BinderDownload.Registry.ServiceManager

/-!
What servicemanager does is done for each name by itself: the three tables together are one slot for each
name, and a slot sees only the events that concern its name.
-/

namespace BinderDownload.Registry

open Text Vintf

structure Slot where
  service : Option Service := none
  watchers : List IBinder := []
  clientCallbacks : List IBinder := []
  deriving DecidableEq

namespace Slot

def guarantee (s : Slot) : Slot :=
  { s with service := s.service.map (fun service => { service with guaranteeClient := true }) }

def sees (s : Slot) (world : World) (ctx : CallingContext) (name : Bytes) : Bool :=
  !s.service.any (fun service => !service.allowIsolated && isIsolated ctx) && world.selinux.canFind ctx name

def lookup (s : Slot) (world : World) (ctx : CallingContext) (name : Bytes) (startIfNotFound : Bool) :
    Option IBinder × List Notice × Slot :=
  if s.sees world ctx name then
    (s.service.map Service.binder, if s.service.isNone && startIfNotFound then [.tryStartService name] else [],
      s.guarantee)
  else (none, [], s)

def admission (world : World) (ctx : CallingContext) (name : Bytes) (binder : Option IBinder) : Status IBinder :=
  if AID_APP ≤ multiuser_get_app_id ctx.uid then .error .security
  else if !world.selinux.canAdd ctx name then .error .security
  else
    match binder with
    | none => .error .illegalArgument
    | some binder =>
      if !isValidServiceName name then .error .illegalArgument
      else if !meetsDeclarationRequirements world binder name then .error .illegalArgument
      else if binder.remoteBinder && !world.linkToDeath binder then .error .illegalState
      else .ok binder

def add (s : Slot) (world : World) (ctx : CallingContext) (name : Bytes) (binder : Option IBinder)
    (allowIsolated : Bool) (dumpPriority : BitVec 32) : Status Unit × List Notice × Slot :=
  match admission world ctx name binder with
  | .error e => (.error e, [], s)
  | .ok binder =>
    let guaranteeClient := !s.watchers.isEmpty
    (.ok (), s.watchers.map (fun cb => .onRegistration cb name binder),
      { s with service := some { binder, allowIsolated, dumpPriority, guaranteeClient, debugPid := ctx.debugPid } })

def watch (s : Slot) (world : World) (ctx : CallingContext) (name : Bytes) (callback : Option IBinder) :
    Status Unit × List Notice × Slot :=
  if !world.selinux.canFind ctx name then (.error .security, [], s)
  else if !isValidServiceName name then (.error .illegalArgument, [], s)
  else
    match callback with
    | none => (.error .nullPointer, [], s)
    | some callback =>
      if !world.linkToDeath callback then (.error .illegalState, [], s)
      else (.ok (), (s.service.map (fun service => Notice.onRegistration callback name service.binder)).toList,
        { s with watchers := s.watchers ++ [callback] })

def without (who : Option IBinder) (listeners : List IBinder) : List IBinder :=
  listeners.filter (fun listener => some listener ≠ who)

def unwatch (s : Slot) (world : World) (ctx : CallingContext) (name : Bytes) (callback : Option IBinder) :
    Status Unit × Slot :=
  if !world.selinux.canFind ctx name then (.error .security, s)
  else if s.watchers.any (fun listener => some listener = callback) then
    (.ok (), { s with watchers := without callback s.watchers })
  else (.error .illegalState, s)

def watchClients (s : Slot) (world : World) (ipc : IPCThreadState) (name : Bytes) (service cb : Option IBinder) :
    Status Unit × Slot :=
  match cb with
  | none => (.error .nullPointer, s)
  | some cb =>
    if !world.selinux.canAdd (world.selinux.getCallingContext ipc) name then (.error .security, s)
    else
      match s.service with
      | none => (.error .illegalArgument, s)
      | some entry =>
        if entry.debugPid ≠ ipc.callingPid then (.error .unsupportedOperation, s)
        else if some entry.binder ≠ service then (.error .illegalArgument, s)
        else if !world.linkToDeath cb then (.error .illegalState, s)
        else (.ok (), { s with clientCallbacks := s.clientCallbacks ++ [cb] })

def count (s : Slot) (world : World) : Int :=
  match s.service with
  | none => -1
  | some service => if s.clientCallbacks = [] then -1 else service.getNodeStrongRefCount world

def reports (service : Service) (hasClients : Bool) : List Bool :=
  if service.guaranteeClient && !service.hasClients && !hasClients then [true, false]
  else if hasClients = service.hasClients then [] else [hasClients]

def onClients (s : Slot) (name : Bytes) (service : Service) (reports : List Bool) : List Notice :=
  reports.flatMap (fun hasClients => s.clientCallbacks.map (fun cb => .onClients cb name service.binder hasClients))

def timer (s : Slot) (world : World) (name : Bytes) : List Notice × Slot :=
  match s.service with
  | none => ([], s)
  | some service =>
    if s.count world = -1 then ([], s)
    else
      let hasClients : Bool := s.count world > 1
      (s.onClients name service (reports service hasClients),
        { s with service := some { service with hasClients, guaranteeClient := false } })

def unregister (s : Slot) (world : World) (ipc : IPCThreadState) (name : Bytes) (binder : Option IBinder) :
    Status Unit × Slot :=
  match binder with
  | none => (.error .nullPointer, s)
  | some binder =>
    if !world.selinux.canAdd (world.selinux.getCallingContext ipc) name then (.error .security, s)
    else
      match s.service with
      | none => (.error .illegalState, s)
      | some service =>
        if service.debugPid ≠ ipc.callingPid then (.error .unsupportedOperation, s)
        else if binder ≠ service.binder then (.error .illegalState, s)
        else if service.guaranteeClient then (.error .illegalState, s)
        else if s.count world < 0 ∨ s.count world > 2 then (.error .illegalState, s.guarantee)
        else (.ok (), { s with service := none })

def died (s : Slot) (who : IBinder) : Slot where
  service := s.service.filter (fun service => who ≠ service.binder)
  watchers := without (some who) s.watchers
  clientCallbacks := without (some who) s.clientCallbacks

theorem count_some {s : Slot} {world : World} (h : s.count world ≠ -1) :
    ∃ service, s.service = some service ∧ s.clientCallbacks ≠ [] ∧
      s.count world = service.getNodeStrongRefCount world := by
  unfold count at h ⊢
  cases hs : s.service with
  | none => simp [hs] at h
  | some service =>
    simp only [hs] at h ⊢
    split_ifs at h ⊢ with hnil
    · exact absurd rfl h
    · exact ⟨service, rfl, hnil, rfl⟩

theorem reports_split (service : Service) (hasClients : Bool) :
    reports service hasClients =
      (if service.guaranteeClient && !service.hasClients && !hasClients then [true] else []) ++
        (if hasClients = (service.hasClients || (service.guaranteeClient && !hasClients)) then []
          else [hasClients]) := by
  unfold reports
  cases service.guaranteeClient <;> cases service.hasClients <;> cases hasClients <;> rfl

theorem onClients_name (s : Slot) (name other : Bytes) (service : Service) (reports : List Bool) :
    (s.onClients name service reports).filter (fun notice => notice.name = other) =
      if other = name then s.onClients name service reports else [] := by
  unfold onClients
  split_ifs with h
  · apply List.filter_eq_self.mpr
    intro notice hnotice
    obtain ⟨hasClients, -, hnotice⟩ := List.mem_flatMap.mp hnotice
    obtain ⟨cb, -, rfl⟩ := List.mem_map.mp hnotice
    simp [Notice.name, h]
  · apply List.filter_eq_nil_iff.mpr
    intro notice hnotice
    obtain ⟨hasClients, -, hnotice⟩ := List.mem_flatMap.mp hnotice
    obtain ⟨cb, -, rfl⟩ := List.mem_map.mp hnotice
    simp [Notice.name, Ne.symm h]

theorem timer_name (s : Slot) (world : World) (name other : Bytes) :
    (s.timer world name).1.filter (fun notice => notice.name = other) =
      if other = name then (s.timer world name).1 else [] := by
  unfold timer
  cases s.service with
  | none => simp
  | some service =>
    by_cases hcount : s.count world = -1
    · simp [hcount]
    · simp only [hcount, if_false]
      exact onClients_name s name other service _

end Slot

def Request.name? : Request → Option Bytes
  | getService name | checkService name | addService name _ _ _ | registerForNotifications name _
  | unregisterForNotifications name _ | isDeclared name | updatableViaApex name | registerClientCallback name _ _
  | tryUnregisterService name _ => some name
  | listServices _ | getDeclaredInstances _ | getServiceDebugInfo => none

def Slot.onTransact (s : Slot) (ipc : IPCThreadState) (world : World) : Request → Answer × List Notice × Slot
  | .getService name =>
    let (out, notices, s) := s.lookup world (world.selinux.getCallingContext ipc) name true
    (.binder out, notices, s)
  | .checkService name =>
    let (out, notices, s) := s.lookup world (world.selinux.getCallingContext ipc) name false
    (.binder out, notices, s)
  | .addService name binder allowIsolated dumpPriority =>
    let ctx := world.selinux.getCallingContext ipc
    let (status, notices, s) := s.add world ctx name binder allowIsolated dumpPriority
    (.status status, notices, s)
  | .registerForNotifications name callback =>
    let (status, notices, s) := s.watch world (world.selinux.getCallingContext ipc) name callback
    (.status status, notices, s)
  | .unregisterForNotifications name callback =>
    let (status, s) := s.unwatch world (world.selinux.getCallingContext ipc) name callback
    (.status status, [], s)
  | .isDeclared name =>
    (.declared (ServiceManager.isDeclared world (world.selinux.getCallingContext ipc) name), [], s)
  | .updatableViaApex name =>
    (.apex (ServiceManager.updatableViaApex world (world.selinux.getCallingContext ipc) name), [], s)
  | .registerClientCallback name service cb =>
    let (status, s) := s.watchClients world ipc name service cb
    (.status status, [], s)
  | .tryUnregisterService name binder =>
    let (status, s) := s.unregister world ipc name binder
    (.status status, [], s)
  | .listServices _ | .getDeclaredInstances _ | .getServiceDebugInfo => (.silent, [], s)

def Slot.handle (name : Bytes) (s : Slot) : Event → Answer × List Notice × Slot
  | .transact ipc world request =>
    if request.name? = some name then s.onTransact ipc world request else (.silent, [], s)
  | .binderDied who => (.silent, [], s.died who)
  | .timer world =>
    let (notices, s) := s.timer world name
    (.silent, notices, s)

def Event.concerns (name : Bytes) : Event → Bool
  | .transact _ _ request => request.name? = some name
  | .binderDied _ => true
  | .timer _ => true

namespace ServiceManager

def slot (sm : ServiceManager) (name : Bytes) : Slot where
  service := sm.mNameToService[name]?
  watchers := (sm.mNameToRegistrationCallback[name]?).getD []
  clientCallbacks := (sm.mNameToClientCallback[name]?).getD []

structure Tidy (sm : ServiceManager) : Prop where
  watchers : ∀ name : Bytes, sm.mNameToRegistrationCallback[name]? ≠ some []
  clientCallbacks : ∀ name : Bytes, sm.mNameToClientCallback[name]? ≠ some []

end ServiceManager

end BinderDownload.Registry
