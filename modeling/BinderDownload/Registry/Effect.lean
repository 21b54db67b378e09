import BinderDownload.Registry.Refine

namespace BinderDownload.Registry

open Text Vintf

def Answer.isOk : Answer → Bool
  | .status (.ok ()) => true
  | _ => false

def Answer.out : Answer → Option IBinder
  | .binder out => out
  | _ => none

@[simp] theorem Answer.isOk_ok : (Answer.status (.ok ())).isOk = true := rfl

@[simp] theorem Answer.isOk_error (e : ExceptionCode) : (Answer.status (.error e)).isOk = false := rfl

namespace Slot

inductive Effect (name : Bytes) (s : Slot) : Event → Answer → List Notice → Slot → Prop
  /-- Nothing is done: another name, a question, a refusal, or a service that is not there. -/
  | quiet {ipc : IPCThreadState} {world : World} {request : Request} {answer : Answer} {notices : List Notice}
      (hok : answer.isOk = false) (hout : answer.out = none)
      (hnotices : ∀ notice ∈ notices, notice = .tryStartService name) :
      Effect name s (.transact ipc world request) answer notices s
  | found {ipc : IPCThreadState} {world : World} {request : Request} {service : Service}
      (hrequest : request = .getService name ∨ request = .checkService name) (hs : s.service = some service)
      (hsees : s.sees world (world.selinux.getCallingContext ipc) name = true) :
      Effect name s (.transact ipc world request) (.binder (some service.binder)) []
        { s with service := some { service with guaranteeClient := true } }
  | added {ipc : IPCThreadState} {world : World} {binder : IBinder} {allowIsolated : Bool} {dumpPriority : BitVec 32}
      (hallowed : admission world (world.selinux.getCallingContext ipc) name (some binder) = .ok binder) :
      Effect name s (.transact ipc world (.addService name (some binder) allowIsolated dumpPriority)) (.status (.ok ()))
        (s.watchers.map (fun cb => .onRegistration cb name binder))
        { s with
          service := some
            { binder, allowIsolated, dumpPriority, guaranteeClient := !s.watchers.isEmpty,
              debugPid := ipc.callingPid } }
  | watched {ipc : IPCThreadState} {world : World} {callback : IBinder}
      (hfind : world.selinux.canFind (world.selinux.getCallingContext ipc) name = true)
      (hvalid : isValidServiceName name = true) (hlink : world.linkToDeath callback = true) :
      Effect name s (.transact ipc world (.registerForNotifications name (some callback))) (.status (.ok ()))
        (s.service.map (fun service => Notice.onRegistration callback name service.binder)).toList
        { s with watchers := s.watchers ++ [callback] }
  | unwatched {ipc : IPCThreadState} {world : World} {callback : IBinder} (hmem : callback ∈ s.watchers) :
      Effect name s (.transact ipc world (.unregisterForNotifications name (some callback))) (.status (.ok ())) []
        { s with watchers := without (some callback) s.watchers }
  | clientsWatched {ipc : IPCThreadState} {world : World} {service : Service} {cb : IBinder}
      (hs : s.service = some service)
      (hpid : service.debugPid = ipc.callingPid) (hlink : world.linkToDeath cb = true) :
      Effect name s (.transact ipc world (.registerClientCallback name (some service.binder) (some cb)))
        (.status (.ok ())) [] { s with clientCallbacks := s.clientCallbacks ++ [cb] }
  /-- A refused `tryUnregisterService`: there are other clients, or nobody can tell. -/
  | clung {ipc : IPCThreadState} {world : World} {service : Service} (hs : s.service = some service)
      (hclients : s.count world < 0 ∨ s.count world > 2) :
      Effect name s (.transact ipc world (.tryUnregisterService name (some service.binder)))
        (.status (.error .illegalState)) [] { s with service := some { service with guaranteeClient := true } }
  | unregistered {ipc : IPCThreadState} {world : World} {service : Service} (hs : s.service = some service)
      (hadd : world.selinux.canAdd (world.selinux.getCallingContext ipc) name = true)
      (hpid : service.debugPid = ipc.callingPid) (hguarantee : service.guaranteeClient = false)
      (hcount : 0 ≤ s.count world ∧ s.count world ≤ 2) :
      Effect name s (.transact ipc world (.tryUnregisterService name (some service.binder))) (.status (.ok ())) []
        { s with service := none }
  | died {who : IBinder} : Effect name s (.binderDied who) .silent [] (s.died who)
  | asleep {world : World} (hcount : s.count world = -1) : Effect name s (.timer world) .silent [] s
  | timed {world : World} {service : Service} (hs : s.service = some service) (hcount : s.count world ≠ -1) :
      Effect name s (.timer world) .silent (s.onClients name service (reports service (s.count world > 1)))
        { s with service := some { service with hasClients := s.count world > 1, guaranteeClient := false } }

variable {name : Bytes} {s : Slot} {ipc : IPCThreadState} {world : World}

theorem lookup_effect {request : Request} {startIfNotFound : Bool}
    (hrequest : request = .getService name ∨ request = .checkService name) :
    let r := s.lookup world (world.selinux.getCallingContext ipc) name startIfNotFound
    Effect name s (.transact ipc world request) (.binder r.1) r.2.1 r.2.2 := by
  unfold lookup
  cases hsees : s.sees world (world.selinux.getCallingContext ipc) name with
  | false => exact .quiet rfl rfl (by simp)
  | true =>
    cases hs : s.service with
    | none =>
      have hsame : s.guarantee = s := by
        unfold guarantee
        rw [hs, Option.map_none, ← hs]
      simp only [if_true, hsame]
      refine .quiet rfl rfl ?_
      intro notice hnotice
      split_ifs at hnotice
      · exact List.mem_singleton.mp hnotice
      · cases hnotice
    | some service =>
      have hmark : s.guarantee = { s with service := some { service with guaranteeClient := true } } := by
        simp [guarantee, hs]
      simp only [if_true, hmark]
      exact .found hrequest hs hsees

theorem admission_ok {ctx : CallingContext} {binder : Option IBinder} {b : IBinder}
    (h : admission world ctx name binder = .ok b) : binder = some b := by
  unfold admission at h
  cases binder with
  | none => split_ifs at h
  | some binder =>
    simp only at h
    split_ifs at h
    rw [Except.ok.inj h]

theorem add_effect {binder : Option IBinder} {allowIsolated : Bool} {dumpPriority : BitVec 32} :
    let r := s.add world (world.selinux.getCallingContext ipc) name binder allowIsolated dumpPriority
    Effect name s (.transact ipc world (.addService name binder allowIsolated dumpPriority))
      (.status r.1) r.2.1 r.2.2 := by
  unfold add
  cases hallowed : admission world (world.selinux.getCallingContext ipc) name binder with
  | error e => exact .quiet rfl rfl (by simp)
  | ok b =>
    obtain rfl := admission_ok hallowed
    exact .added hallowed

theorem watch_effect {callback : Option IBinder} :
    let r := s.watch world (world.selinux.getCallingContext ipc) name callback
    Effect name s (.transact ipc world (.registerForNotifications name callback)) (.status r.1) r.2.1 r.2.2 := by
  unfold watch
  cases hfind : world.selinux.canFind (world.selinux.getCallingContext ipc) name with
  | false => exact .quiet rfl rfl (by simp)
  | true =>
    cases hvalid : isValidServiceName name with
    | false => exact .quiet rfl rfl (by simp)
    | true =>
      cases callback with
      | none => exact .quiet rfl rfl (by simp)
      | some callback =>
        cases hlink : world.linkToDeath callback with
        | false =>
          simp only [hlink]
          exact .quiet rfl rfl (by simp)
        | true =>
          simp only [hlink]
          exact .watched hfind hvalid hlink

theorem unwatch_effect {callback : Option IBinder} :
    let r := s.unwatch world (world.selinux.getCallingContext ipc) name callback
    Effect name s (.transact ipc world (.unregisterForNotifications name callback)) (.status r.1) [] r.2 := by
  unfold unwatch
  split_ifs with hfind hany
  · exact .quiet rfl rfl (by simp)
  · obtain ⟨listener, hmem, hlistener⟩ := List.any_eq_true.mp hany
    obtain rfl := of_decide_eq_true hlistener
    exact .unwatched hmem
  · exact .quiet rfl rfl (by simp)

theorem watchClients_effect {service cb : Option IBinder} :
    let r := s.watchClients world ipc name service cb
    Effect name s (.transact ipc world (.registerClientCallback name service cb)) (.status r.1) [] r.2 := by
  unfold watchClients
  cases cb with
  | none => exact .quiet rfl rfl (by simp)
  | some cb =>
    simp only
    cases hadd : world.selinux.canAdd (world.selinux.getCallingContext ipc) name with
    | false => exact .quiet rfl rfl (by simp)
    | true =>
      cases hs : s.service with
      | none => exact .quiet rfl rfl (by simp)
      | some entry =>
        simp only [Bool.not_true, Bool.false_eq_true, if_false]
        split_ifs with hpid hbinder hlink
        · exact .quiet rfl rfl (by simp)
        · exact .quiet rfl rfl (by simp)
        · exact .quiet rfl rfl (by simp)
        · obtain rfl := not_not.mp hbinder
          rw [← hs]
          exact .clientsWatched hs (not_not.mp hpid) (by simpa using hlink)

theorem unregister_effect {binder : Option IBinder} :
    let r := s.unregister world ipc name binder
    Effect name s (.transact ipc world (.tryUnregisterService name binder)) (.status r.1) [] r.2 := by
  unfold unregister
  cases binder with
  | none => exact .quiet rfl rfl (by simp)
  | some binder =>
    simp only
    cases hadd : world.selinux.canAdd (world.selinux.getCallingContext ipc) name with
    | false => exact .quiet rfl rfl (by simp)
    | true =>
      cases hs : s.service with
      | none => exact .quiet rfl rfl (by simp)
      | some service =>
        simp only [Bool.not_true, Bool.false_eq_true, if_false]
        split_ifs with hpid hbinder hguarantee hclients
        · exact .quiet rfl rfl (by simp)
        · exact .quiet rfl rfl (by simp)
        · exact .quiet rfl rfl (by simp)
        · obtain rfl := not_not.mp hbinder
          have hmark : s.guarantee = { s with service := some { service with guaranteeClient := true } } := by
            simp [guarantee, hs]
          rw [hmark]
          exact .clung hs hclients
        · obtain rfl := not_not.mp hbinder
          refine .unregistered hs hadd (not_not.mp hpid) (by simpa using hguarantee) ?_
          omega

theorem timer_effect : Effect name s (.timer world) .silent (s.timer world name).1 (s.timer world name).2 := by
  unfold timer
  cases hs : s.service with
  | none => exact .asleep (by rw [count, hs])
  | some service =>
    simp only
    split_ifs with hcount
    · exact .asleep hcount
    · exact .timed hs hcount

theorem handle_effect (name : Bytes) (s : Slot) (event : Event) :
    Effect name s event (handle name s event).1 (handle name s event).2.1 (handle name s event).2.2 := by
  cases event with
  | transact ipc world request =>
    by_cases hname : request.name? = some name
    · simp only [handle, hname, if_true]
      cases request with
      | getService n =>
        obtain rfl := Option.some.inj hname
        exact lookup_effect (.inl rfl)
      | checkService n =>
        obtain rfl := Option.some.inj hname
        exact lookup_effect (.inr rfl)
      | addService n binder allowIsolated dumpPriority =>
        obtain rfl := Option.some.inj hname
        exact add_effect
      | registerForNotifications n callback =>
        obtain rfl := Option.some.inj hname
        exact watch_effect
      | unregisterForNotifications n callback =>
        obtain rfl := Option.some.inj hname
        exact unwatch_effect
      | registerClientCallback n service cb =>
        obtain rfl := Option.some.inj hname
        exact watchClients_effect
      | tryUnregisterService n binder =>
        obtain rfl := Option.some.inj hname
        exact unregister_effect
      | isDeclared n | updatableViaApex n | listServices p | getDeclaredInstances i | getServiceDebugInfo =>
        exact .quiet rfl rfl (by simp [onTransact])
    · simp only [handle, hname, if_false]
      exact .quiet rfl rfl (by simp)
  | binderDied who => exact .died
  | timer world => exact timer_effect

end Slot

end BinderDownload.Registry
