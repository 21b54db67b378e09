import BinderDownload.Registry.Access
import BinderDownload.Vintf.Manifest

/-!
servicemanager. It serves its transactions, the deaths of binders and its timer one at a time, so each of
them is one step. A failed `CHECK` ends the process: such a step has no result.
-/

namespace BinderDownload.Registry

open Text Vintf

structure IBinder where
  id : ℕ
  remoteBinder : Bool := true
  deriving DecidableEq

abbrev Level := BitVec 8

namespace Stability

def UNDECLARED : Level := 0b000000
def VENDOR : Level := 0b000011
def SYSTEM : Level := 0b001100
def VINTF : Level := 0b111111

def isDeclaredLevel (stability : Level) : Bool := stability = VENDOR ∨ stability = SYSTEM ∨ stability = VINTF

def check (provided required : Level) : Bool :=
  if provided ≠ UNDECLARED ∧ !isDeclaredLevel provided then false else provided &&& required = required

def requiresVintfDeclaration (level : Level) : Bool := check level VINTF

end Stability

structure World where
  selinux : Selinux
  vintf : VintfObject := {}
  level : IBinder → Level := fun _ => Stability.SYSTEM
  linkToDeath : IBinder → Bool
  getStrongRefCountForNode : IBinder → Int

inductive ExceptionCode
  | security | illegalArgument | nullPointer | illegalState | unsupportedOperation
  deriving DecidableEq

abbrev Status := Except ExceptionCode

/-- What servicemanager sends out. The name in `onClients` is not part of the message. -/
inductive Notice
  | onRegistration (callback : IBinder) (name : Bytes) (binder : IBinder)
  | onClients (callback : IBinder) (serviceName : Bytes) (binder : IBinder) (hasClients : Bool)
  | tryStartService (name : Bytes)
  deriving DecidableEq

def Notice.name : Notice → Bytes
  | onRegistration _ name _ => name
  | onClients _ name _ _ => name
  | tryStartService name => name

structure Service where
  binder : IBinder
  allowIsolated : Bool
  dumpPriority : BitVec 32
  hasClients : Bool := false
  guaranteeClient : Bool := false
  debugPid : Int := 0
  deriving DecidableEq

structure ServiceDebugInfo where
  name : Bytes
  debugPid : Int
  deriving DecidableEq

abbrev StringMap (α : Type) := Std.ExtTreeMap Bytes α compare

structure ServiceManager where
  mNameToService : StringMap Service := ∅
  mNameToRegistrationCallback : StringMap (List IBinder) := ∅
  mNameToClientCallback : StringMap (List IBinder) := ∅

def isNameChar (c : UInt8) : Bool :=
  c = 95 ∨ c = 45 ∨ c = 46 ∨ c = 47 ∨ (97 ≤ c ∧ c ≤ 122) ∨ (65 ≤ c ∧ c ≤ 90) ∨ (48 ≤ c ∧ c ≤ 57)

def isValidServiceName (name : Bytes) : Bool :=
  if name.length = 0 then false
  else if name.length > 127 then false
  else name.all isNameChar

def isIsolated (ctx : CallingContext) : Bool :=
  AID_ISOLATED_START ≤ multiuser_get_app_id ctx.uid ∧ multiuser_get_app_id ctx.uid ≤ AID_ISOLATED_END

def meetsDeclarationRequirements (world : World) (binder : IBinder) (name : Bytes) : Bool :=
  if !Stability.requiresVintfDeclaration (world.level binder) then true else world.vintf.isVintfDeclared name

def Service.getNodeStrongRefCount (service : Service) (world : World) : Int :=
  if service.binder.remoteBinder then world.getStrongRefCountForNode service.binder else -1

/-- The callbacks without those of `who`. No entry is kept for an empty list. -/
def removeListeners (who : Option IBinder) (listeners : List IBinder) : Option (List IBinder) :=
  match listeners.filter (fun listener => some listener ≠ who) with
  | [] => none
  | listener :: listeners => some (listener :: listeners)

namespace ServiceManager

variable (sm : ServiceManager) (world : World)

def putService (name : Bytes) (service : Service) : ServiceManager :=
  { sm with mNameToService := sm.mNameToService.insert name service }

def modifyService (name : Bytes) (f : Service → Service) : ServiceManager :=
  { sm with mNameToService := sm.mNameToService.modify name f }

def eraseService (name : Bytes) : ServiceManager := { sm with mNameToService := sm.mNameToService.erase name }

def putWatchers (name : Bytes) (callbacks : List IBinder) : ServiceManager :=
  { sm with mNameToRegistrationCallback := sm.mNameToRegistrationCallback.insert name callbacks }

def alterWatchers (name : Bytes) (callbacks : Option (List IBinder)) : ServiceManager :=
  { sm with mNameToRegistrationCallback := sm.mNameToRegistrationCallback.alter name (fun _ => callbacks) }

def putClientCallbacks (name : Bytes) (callbacks : List IBinder) : ServiceManager :=
  { sm with mNameToClientCallback := sm.mNameToClientCallback.insert name callbacks }

def tryGetService (ctx : CallingContext) (name : Bytes) (startIfNotFound : Bool) :
    Option IBinder × List Notice × ServiceManager :=
  let found := sm.mNameToService[name]?
  if found.any (fun service => !service.allowIsolated && isIsolated ctx) then (none, [], sm)
  else if !world.selinux.canFind ctx name then (none, [], sm)
  else
    match found with
    | none => (none, if startIfNotFound then [.tryStartService name] else [], sm)
    | some service => (some service.binder, [], sm.putService name { service with guaranteeClient := true })

def getService (ctx : CallingContext) (name : Bytes) : Option IBinder × List Notice × ServiceManager :=
  sm.tryGetService world ctx name true

def checkService (ctx : CallingContext) (name : Bytes) : Option IBinder × List Notice × ServiceManager :=
  sm.tryGetService world ctx name false

def announce (name : Bytes) (binder : IBinder) : List IBinder → ServiceManager → List Notice × ServiceManager
  | [], sm => ([], sm)
  | cb :: callbacks, sm =>
    let sm := sm.modifyService name (fun service => { service with guaranteeClient := true })
    let (notices, sm) := announce name binder callbacks sm
    (.onRegistration cb name binder :: notices, sm)

def addService (ctx : CallingContext) (name : Bytes) (binder : Option IBinder) (allowIsolated : Bool)
    (dumpPriority : BitVec 32) : Status Unit × List Notice × ServiceManager :=
  if AID_APP ≤ multiuser_get_app_id ctx.uid then (.error .security, [], sm)
  else if !world.selinux.canAdd ctx name then (.error .security, [], sm)
  else
    match binder with
    | none => (.error .illegalArgument, [], sm)
    | some binder =>
      if !isValidServiceName name then (.error .illegalArgument, [], sm)
      else if !meetsDeclarationRequirements world binder name then (.error .illegalArgument, [], sm)
      else if binder.remoteBinder && !world.linkToDeath binder then (.error .illegalState, [], sm)
      else
        let sm := sm.putService name { binder, allowIsolated, dumpPriority, debugPid := ctx.debugPid }
        match sm.mNameToRegistrationCallback[name]? with
        | none => (.ok (), [], sm)
        | some callbacks =>
          let (notices, sm) := announce name binder callbacks sm
          (.ok (), notices, sm)

def listServices (ctx : CallingContext) (dumpPriority : BitVec 32) : Status (List Bytes) :=
  if !world.selinux.canList ctx then .error .security
  else .ok ((sm.mNameToService.toList.filter (fun entry => entry.2.dumpPriority &&& dumpPriority ≠ 0)).map Prod.fst)

def registerForNotifications (ctx : CallingContext) (name : Bytes) (callback : Option IBinder) :
    Status Unit × List Notice × ServiceManager :=
  if !world.selinux.canFind ctx name then (.error .security, [], sm)
  else if !isValidServiceName name then (.error .illegalArgument, [], sm)
  else
    match callback with
    | none => (.error .nullPointer, [], sm)
    | some callback =>
      if !world.linkToDeath callback then (.error .illegalState, [], sm)
      else
        let sm := sm.putWatchers name ((sm.mNameToRegistrationCallback[name]?).getD [] ++ [callback])
        match sm.mNameToService[name]? with
        | none => (.ok (), [], sm)
        | some service => (.ok (), [.onRegistration callback name service.binder], sm)

def unregisterForNotifications (ctx : CallingContext) (name : Bytes) (callback : Option IBinder) :
    Status Unit × ServiceManager :=
  if !world.selinux.canFind ctx name then (.error .security, sm)
  else
    match sm.mNameToRegistrationCallback[name]? with
    | none => (.error .illegalState, sm)
    | some listeners =>
      let sm := sm.alterWatchers name (removeListeners callback listeners)
      if listeners.any (fun listener => some listener = callback) then (.ok (), sm) else (.error .illegalState, sm)

def isDeclared (ctx : CallingContext) (name : Bytes) : Status Bool :=
  if !world.selinux.canFind ctx name then .error .security else .ok (world.vintf.isVintfDeclared name)

def getDeclaredInstances (ctx : CallingContext) (interface : Bytes) : Status (List Bytes) :=
  let allInstances := world.vintf.getVintfInstances interface
  let found := allInstances.filter (fun mInstance => world.selinux.canFind ctx (interface ++ 47 :: mInstance))
  if found.length = 0 ∧ allInstances.length ≠ 0 then .error .security else .ok found

def updatableViaApex (ctx : CallingContext) (name : Bytes) : Status (Option Bytes) :=
  if !world.selinux.canFind ctx name then .error .security else .ok (world.vintf.getVintfUpdatableApex name)

def binderDied (who : IBinder) : ServiceManager where
  mNameToService := sm.mNameToService.filterMap (fun _ service => if who = service.binder then none else some service)
  mNameToRegistrationCallback := sm.mNameToRegistrationCallback.filterMap (fun _ => removeListeners (some who))
  mNameToClientCallback := sm.mNameToClientCallback.filterMap (fun _ => removeListeners (some who))

def registerClientCallback (ipc : IPCThreadState) (name : Bytes) (service cb : Option IBinder) :
    Status Unit × ServiceManager :=
  match cb with
  | none => (.error .nullPointer, sm)
  | some cb =>
    if !world.selinux.canAdd (world.selinux.getCallingContext ipc) name then (.error .security, sm)
    else
      match sm.mNameToService[name]? with
      | none => (.error .illegalArgument, sm)
      | some entry =>
        if entry.debugPid ≠ ipc.callingPid then (.error .unsupportedOperation, sm)
        else if some entry.binder ≠ service then (.error .illegalArgument, sm)
        else if !world.linkToDeath cb then (.error .illegalState, sm)
        else
          (.ok (), sm.putClientCallbacks name ((sm.mNameToClientCallback[name]?).getD [] ++ [cb]))

def sendClientCallbackNotifications (serviceName : Bytes) (hasClients : Bool) :
    Option (List Notice × ServiceManager) :=
  match sm.mNameToService[serviceName]? with
  | none => some ([], sm)
  | some service =>
    if hasClients = service.hasClients then none
    else
      match sm.mNameToClientCallback[serviceName]? with
      | none => none
      | some callbacks =>
        some (callbacks.map (fun callback => .onClients callback serviceName service.binder hasClients),
          sm.putService serviceName { service with hasClients })

def spendGuarantee (serviceName : Bytes) (service : Service) (hasClients : Bool) :
    Option (List Notice × ServiceManager) :=
  if service.guaranteeClient then do
    let (notices, sm) ←
      if !service.hasClients && !hasClients then sm.sendClientCallbackNotifications serviceName true
      else some ([], sm)
    return (notices, sm.modifyService serviceName (fun service => { service with guaranteeClient := false }))
  else some ([], sm)

/-- What the entry records now. `service` is a reference in the source: what was just sent shows in it. -/
def recordedClients (serviceName : Bytes) : Bool := (sm.mNameToService[serviceName]?).any Service.hasClients

def noticeInterval (serviceName : Bytes) (hasClients : Bool) : Option (List Notice × ServiceManager) := do
  let (gained, sm) ←
    if hasClients && !sm.recordedClients serviceName then sm.sendClientCallbackNotifications serviceName true
    else some ([], sm)
  let (lost, sm) ←
    if !hasClients && sm.recordedClients serviceName then sm.sendClientCallbackNotifications serviceName false
    else some ([], sm)
  return (gained ++ lost, sm)

def handleServiceClientCallback (serviceName : Bytes) (isCalledOnInterval : Bool) :
    Option (Int × List Notice × ServiceManager) :=
  match sm.mNameToService[serviceName]?, sm.mNameToClientCallback[serviceName]? with
  | none, _ => some (-1, [], sm)
  | some _, none => some (-1, [], sm)
  | some service, some _ =>
    let count := service.getNodeStrongRefCount world
    if count = -1 then some (count, [], sm)
    else do
      let hasClients : Bool := count > 1
      let (guaranteed, sm) ← sm.spendGuarantee serviceName service hasClients
      if isCalledOnInterval then
        let (noticed, sm) ← sm.noticeInterval serviceName hasClients
        return (count, guaranteed ++ noticed, sm)
      else return (count, guaranteed, sm)

/-- The loop of `handleClientCallbacks`. Its calls change entries in place and keep the names. -/
def handleClientCallbacksOf : List Bytes → ServiceManager → Option (List Notice × ServiceManager)
  | [], sm => some ([], sm)
  | name :: names, sm => do
    let (_, sent, sm) ← sm.handleServiceClientCallback world name true
    let (notices, sm) ← handleClientCallbacksOf names sm
    return (sent ++ notices, sm)

def handleClientCallbacks : Option (List Notice × ServiceManager) :=
  handleClientCallbacksOf world sm.mNameToService.keys sm

def tryUnregisterService (ipc : IPCThreadState) (name : Bytes) (binder : Option IBinder) :
    Option (Status Unit × List Notice × ServiceManager) :=
  match binder with
  | none => some (.error .nullPointer, [], sm)
  | some binder =>
    if !world.selinux.canAdd (world.selinux.getCallingContext ipc) name then some (.error .security, [], sm)
    else
      match sm.mNameToService[name]? with
      | none => some (.error .illegalState, [], sm)
      | some service =>
        if service.debugPid ≠ ipc.callingPid then some (.error .unsupportedOperation, [], sm)
        else if binder ≠ service.binder then some (.error .illegalState, [], sm)
        else if service.guaranteeClient then some (.error .illegalState, [], sm)
        else do
          let (clients, notices, sm) ← sm.handleServiceClientCallback world name false
          if clients < 0 ∨ clients > 2 then
            let sm := sm.modifyService name (fun service => { service with guaranteeClient := true })
            return (.error .illegalState, notices, sm)
          else return (.ok (), notices, sm.eraseService name)

def getServiceDebugInfo (ctx : CallingContext) : Status (List ServiceDebugInfo) :=
  if !world.selinux.canList ctx then .error .security
  else .ok (sm.mNameToService.toList.map (fun entry => { name := entry.1, debugPid := entry.2.debugPid }))

end ServiceManager

inductive Request
  | getService (name : Bytes)
  | checkService (name : Bytes)
  | addService (name : Bytes) (binder : Option IBinder) (allowIsolated : Bool) (dumpPriority : BitVec 32)
  | listServices (dumpPriority : BitVec 32)
  | registerForNotifications (name : Bytes) (callback : Option IBinder)
  | unregisterForNotifications (name : Bytes) (callback : Option IBinder)
  | isDeclared (name : Bytes)
  | getDeclaredInstances (interface : Bytes)
  | updatableViaApex (name : Bytes)
  | registerClientCallback (name : Bytes) (service cb : Option IBinder)
  | tryUnregisterService (name : Bytes) (binder : Option IBinder)
  | getServiceDebugInfo

inductive Event
  | transact (ipc : IPCThreadState) (world : World) (request : Request)
  | binderDied (who : IBinder)
  | timer (world : World)

inductive Answer
  | binder (out : Option IBinder)
  | status (status : Status Unit)
  | names (names : Status (List Bytes))
  | declared (found : Status Bool)
  | apex (apex : Status (Option Bytes))
  | debugInfo (info : Status (List ServiceDebugInfo))
  | silent

namespace ServiceManager

def onTransact (sm : ServiceManager) (ipc : IPCThreadState) (world : World) :
    Request → Option (Answer × List Notice × ServiceManager)
  | .getService name =>
    let (out, notices, sm) := sm.getService world (world.selinux.getCallingContext ipc) name
    some (.binder out, notices, sm)
  | .checkService name =>
    let (out, notices, sm) := sm.checkService world (world.selinux.getCallingContext ipc) name
    some (.binder out, notices, sm)
  | .addService name binder allowIsolated dumpPriority =>
    let ctx := world.selinux.getCallingContext ipc
    let (status, notices, sm) := sm.addService world ctx name binder allowIsolated dumpPriority
    some (.status status, notices, sm)
  | .listServices dumpPriority =>
    some (.names (sm.listServices world (world.selinux.getCallingContext ipc) dumpPriority), [], sm)
  | .registerForNotifications name callback =>
    let ctx := world.selinux.getCallingContext ipc
    let (status, notices, sm) := sm.registerForNotifications world ctx name callback
    some (.status status, notices, sm)
  | .unregisterForNotifications name callback =>
    let (status, sm) := sm.unregisterForNotifications world (world.selinux.getCallingContext ipc) name callback
    some (.status status, [], sm)
  | .isDeclared name => some (.declared (isDeclared world (world.selinux.getCallingContext ipc) name), [], sm)
  | .getDeclaredInstances interface =>
    some (.names (getDeclaredInstances world (world.selinux.getCallingContext ipc) interface), [], sm)
  | .updatableViaApex name =>
    some (.apex (updatableViaApex world (world.selinux.getCallingContext ipc) name), [], sm)
  | .registerClientCallback name service cb =>
    let (status, sm) := sm.registerClientCallback world ipc name service cb
    some (.status status, [], sm)
  | .tryUnregisterService name binder => do
    let (status, notices, sm) ← sm.tryUnregisterService world ipc name binder
    return (.status status, notices, sm)
  | .getServiceDebugInfo =>
    some (.debugInfo (sm.getServiceDebugInfo world (world.selinux.getCallingContext ipc)), [], sm)

def handle (sm : ServiceManager) : Event → Option (Answer × List Notice × ServiceManager)
  | .transact ipc world request => sm.onTransact ipc world request
  | .binderDied who => some (.silent, [], sm.binderDied who)
  | .timer world => do
    let (notices, sm) ← sm.handleClientCallbacks world
    return (.silent, notices, sm)

end ServiceManager

end BinderDownload.Registry
