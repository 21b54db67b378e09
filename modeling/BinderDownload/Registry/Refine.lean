import BinderDownload.Registry.Serve

namespace BinderDownload.Registry

open Text Vintf

theorem Slot.onTransact_name {s : Slot} (ipc : IPCThreadState) (world : World) {request : Request} {name : Bytes}
    (hname : request.name? = some name) : ∀ notice ∈ (s.onTransact ipc world request).2.1, notice.name = name := by
  cases request with
  | getService n | checkService n =>
    obtain rfl := Option.some.inj hname
    simp only [onTransact, lookup]
    split_ifs <;> simp [Notice.name]
  | addService n binder allowIsolated dumpPriority =>
    obtain rfl := Option.some.inj hname
    simp only [onTransact, add]
    cases admission world (world.selinux.getCallingContext ipc) n binder <;> simp [Notice.name]
  | registerForNotifications n callback =>
    obtain rfl := Option.some.inj hname
    simp only [onTransact, watch]
    cases callback with
    | none => split_ifs <;> simp
    | some callback =>
      simp only
      split_ifs
      · simp
      · simp
      · simp
      · cases s.service <;> simp [Notice.name]
  | unregisterForNotifications n callback | isDeclared n | updatableViaApex n | registerClientCallback n service cb
  | tryUnregisterService n binder | listServices p | getDeclaredInstances i | getServiceDebugInfo => simp [onTransact]

namespace ServiceManager

variable {sm : ServiceManager} {world : World} {name : Bytes}

variable (world) in
theorem onTransact_serves (h : sm.Tidy) (ipc : IPCThreadState) {request : Request} (hname : request.name? = some name) :
    ∃ r, sm.onTransact ipc world request = some r ∧ Serves sm name r ((sm.slot name).onTransact ipc world request) := by
  cases request with
  | getService n | checkService n =>
    obtain rfl := Option.some.inj hname
    obtain ⟨hanswer, hnotices, hslot, htidy⟩ :=
      tryGetService_serves sm world n (world.selinux.getCallingContext ipc) _
    exact ⟨_, rfl, congrArg Answer.binder hanswer, hnotices, hslot, htidy⟩
  | addService n binder allowIsolated dumpPriority =>
    obtain rfl := Option.some.inj hname
    obtain ⟨hanswer, hnotices, hslot, htidy⟩ :=
      addService_serves sm world n (world.selinux.getCallingContext ipc) binder
        allowIsolated dumpPriority
    exact ⟨_, rfl, congrArg Answer.status hanswer, hnotices, hslot, htidy⟩
  | registerForNotifications n callback =>
    obtain rfl := Option.some.inj hname
    obtain ⟨hanswer, hnotices, hslot, htidy⟩ :=
      registerForNotifications_serves sm world n (world.selinux.getCallingContext ipc)
        callback
    exact ⟨_, rfl, congrArg Answer.status hanswer, hnotices, hslot, htidy⟩
  | unregisterForNotifications n callback =>
    obtain rfl := Option.some.inj hname
    obtain ⟨hanswer, -, hslot, htidy⟩ :=
      unregisterForNotifications_serves sm world n (world.selinux.getCallingContext ipc)
        callback
    exact ⟨_, rfl, congrArg Answer.status hanswer, rfl, hslot, htidy⟩
  | registerClientCallback n service cb =>
    obtain rfl := Option.some.inj hname
    obtain ⟨hanswer, -, hslot, htidy⟩ :=
      registerClientCallback_serves sm world n ipc service cb
    exact ⟨_, rfl, congrArg Answer.status hanswer, rfl, hslot, htidy⟩
  | tryUnregisterService n binder =>
    obtain rfl := Option.some.inj hname
    obtain ⟨r, hr, hanswer, hnotices, hslot, htidy⟩ := tryUnregisterService_serves world h ipc binder
    refine ⟨(.status r.1, r.2.1, r.2.2), ?_, congrArg Answer.status hanswer, hnotices, hslot, htidy⟩
    simp only [onTransact, hr]
    rfl
  | isDeclared n | updatableViaApex n =>
    obtain rfl := Option.some.inj hname
    exact ⟨_, rfl, Serves.keep _ _⟩
  | listServices p | getDeclaredInstances i | getServiceDebugInfo => cases hname

variable (sm world) in
theorem onTransact_keeps (ipc : IPCThreadState) {request : Request} (hname : request.name? = none) :
    ∃ answer, sm.onTransact ipc world request = some (answer, [], sm) := by
  cases request with
  | listServices p | getDeclaredInstances i | getServiceDebugInfo => exact ⟨_, rfl⟩
  | getService n | checkService n | addService n binder allowIsolated dumpPriority | registerForNotifications n callback
  | unregisterForNotifications n callback | isDeclared n | updatableViaApex n | registerClientCallback n service cb
  | tryUnregisterService n binder => cases hname

variable (world) in
theorem handleClientCallbacks_slot (h : sm.Tidy) :
    ∃ notices after, sm.handleClientCallbacks world = some (notices, after) ∧ after.Tidy ∧
      ∀ name, after.slot name = ((sm.slot name).timer world name).2 ∧
        notices.filter (fun notice => notice.name = name) = ((sm.slot name).timer world name).1 := by
  have hnodup : sm.mNameToService.keys.Nodup := by
    have hdistinct := Std.ExtTreeMap.distinct_keys (t := sm.mNameToService)
    refine hdistinct.imp ?_
    intro a b hne heq
    exact hne (by rw [heq]; exact Std.ReflCmp.compare_self)
  obtain ⟨notices, after, hrun, htidy, hall⟩ := handleClientCallbacksOf_slot world h hnodup
  refine ⟨notices, after, hrun, htidy, fun name => ?_⟩
  obtain ⟨hslot, hnotices⟩ := hall name
  rw [hslot, hnotices]
  by_cases hmem : name ∈ sm.mNameToService.keys
  · simp [hmem]
  · have hs : (sm.slot name).service = none := by
      rw [Std.ExtTreeMap.mem_keys] at hmem
      exact Std.ExtTreeMap.getElem?_eq_none hmem
    simp [hmem, timer_nowhere hs]

theorem binderDied_slot (who : IBinder) : (sm.binderDied who).slot name = (sm.slot name).died who := by
  have hlisteners (table : StringMap (List IBinder)) :
      ((table.filterMap (fun _ => removeListeners (some who)))[name]?).getD [] =
        Slot.without (some who) ((table[name]?).getD []) := by
    rw [Std.ExtTreeMap.getElem?_filterMap']
    cases table[name]? with
    | none => rfl
    | some listeners => exact removeListeners_getD (some who) listeners
  have hservice : (sm.binderDied who).mNameToService[name]? =
      (sm.mNameToService[name]?).filter (fun service => who ≠ service.binder) := by
    rw [binderDied, Std.ExtTreeMap.getElem?_filterMap']
    cases sm.mNameToService[name]? with
    | none => rfl
    | some service =>
      by_cases hwho : who = service.binder
      · simp [hwho, Option.filter_some]
      · simp [hwho, Option.filter_some]
  unfold slot Slot.died
  rw [hservice]
  simp only [binderDied, hlisteners]

theorem Tidy.binderDied (who : IBinder) : (sm.binderDied who).Tidy := by
  have hlisteners (table : StringMap (List IBinder)) (name : Bytes) :
      (table.filterMap (fun _ => removeListeners (some who)))[name]? ≠ some [] := by
    rw [Std.ExtTreeMap.getElem?_filterMap']
    cases table[name]? with
    | none => simp
    | some listeners => exact removeListeners_ne (some who) listeners
  exact ⟨hlisteners _, hlisteners _⟩

theorem handle_slots (h : sm.Tidy) (event : Event) :
    ∃ answer notices after, sm.handle event = some (answer, notices, after) ∧ after.Tidy ∧
      ∀ name, after.slot name = (Slot.handle name (sm.slot name) event).2.2 ∧
        notices.filter (fun notice => notice.name = name) = (Slot.handle name (sm.slot name) event).2.1 := by
  cases event with
  | transact ipc world request =>
    cases hname : request.name? with
    | none =>
      obtain ⟨answer, hkeep⟩ := onTransact_keeps sm world ipc hname
      exact ⟨answer, [], sm, hkeep, h, fun name => by simp [Slot.handle, hname]⟩
    | some about =>
      obtain ⟨⟨answer, notices, after⟩, hr, -, hnotices, hslot, htidy⟩ := onTransact_serves world h ipc hname
      refine ⟨answer, notices, after, hr, htidy h, fun name => ?_⟩
      simp only at hnotices hslot
      rw [hslot, hnotices]
      have hall := Slot.onTransact_name (s := sm.slot about) ipc world hname
      by_cases heq : name = about
      · subst heq
        simp only [Slot.handle, hname, if_true, Function.update_self, true_and]
        apply List.filter_eq_self.mpr
        intro notice hnotice
        exact decide_eq_true (hall notice hnotice)
      · have hne : ¬ some about = some name := fun hsame => heq (Option.some.inj hsame).symm
        simp only [Slot.handle, hname, hne, if_false, Function.update_of_ne heq, true_and]
        apply List.filter_eq_nil_iff.mpr
        intro notice hnotice hsame
        rw [decide_eq_true_eq, hall notice hnotice] at hsame
        exact heq hsame.symm
  | binderDied who =>
    exact ⟨.silent, [], sm.binderDied who, rfl, Tidy.binderDied who, fun name => ⟨binderDied_slot who, rfl⟩⟩
  | timer world =>
    obtain ⟨notices, after, hrun, htidy, hall⟩ := handleClientCallbacks_slot world h
    refine ⟨.silent, notices, after, ?_, htidy, hall⟩
    simp only [handle, hrun]
    rfl

theorem handle_answer (h : sm.Tidy) {ipc : IPCThreadState} {request : Request} (hname : request.name? = some name)
    {r : Answer × List Notice × ServiceManager} (hr : sm.handle (.transact ipc world request) = some r) :
    r.1 = (Slot.handle name (sm.slot name) (.transact ipc world request)).1 := by
  obtain ⟨served, hserved, hanswer, -⟩ := onTransact_serves world h ipc hname
  simp only [handle] at hr
  rw [hserved, Option.some.injEq] at hr
  rw [← hr, hanswer]
  simp only [Slot.handle, hname, if_true]

end ServiceManager

end BinderDownload.Registry
