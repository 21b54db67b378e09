import BinderDownload.Lib.Text

namespace BinderDownload.Registry

open Text

def AID_USER_OFFSET : ℕ := 100000
def AID_APP : ℕ := 10000
def AID_ISOLATED_START : ℕ := 90000
def AID_ISOLATED_END : ℕ := 99999

def multiuser_get_app_id (uid : ℕ) : ℕ := uid % AID_USER_OFFSET

structure IPCThreadState where
  callingPid : Int
  callingUid : ℕ
  callingSid : Option Bytes := none

structure Selinux where
  thisProcessContext : Bytes
  getpidcon : Int → Option Bytes
  selabelLookup : Bytes → Option Bytes
  checkAccess : Bytes → Bytes → Bytes → Bytes → Bool

def kPermissiveContext : Bytes := ascii "u:r:permissive:s0"

/-- The libselinux replacement of this host. -/
def Selinux.stub : Selinux where
  thisProcessContext := kPermissiveContext
  getpidcon _ := some kPermissiveContext
  selabelLookup _ := some kPermissiveContext
  checkAccess _ _ _ _ := true

structure CallingContext where
  debugPid : Int
  uid : ℕ
  sid : Bytes

namespace Selinux

variable (selinux : Selinux)

def getPidcon (pid : Int) : Bytes := (selinux.getpidcon pid).getD []

def getCallingContext (ipc : IPCThreadState) : CallingContext where
  debugPid := ipc.callingPid
  uid := ipc.callingUid
  sid := ipc.callingSid.getD (selinux.getPidcon ipc.callingPid)

def actionAllowed (sctx : CallingContext) (tctx perm : Bytes) : Bool :=
  selinux.checkAccess sctx.sid tctx (ascii "service_manager") perm

def actionAllowedFromLookup (sctx : CallingContext) (name perm : Bytes) : Bool :=
  match selinux.selabelLookup name with
  | none => false
  | some tctx => selinux.actionAllowed sctx tctx perm

def canFind (ctx : CallingContext) (name : Bytes) : Bool := selinux.actionAllowedFromLookup ctx name (ascii "find")

def canAdd (ctx : CallingContext) (name : Bytes) : Bool := selinux.actionAllowedFromLookup ctx name (ascii "add")

def canList (ctx : CallingContext) : Bool := selinux.actionAllowed ctx selinux.thisProcessContext (ascii "list")

end Selinux

end BinderDownload.Registry
