import BinderDownload.Registry.Slot

namespace BinderDownload.Registry

open Text Vintf

namespace ServiceManager

variable {sm : ServiceManager} {world : World} {name : Bytes}

section Tables

theorem slot_update {after : ServiceManager} {s : Slot} (hname : after.slot name = s)
    (hother : ∀ other, other ≠ name → after.slot other = sm.slot other) :
    after.slot = Function.update sm.slot name s := by
  funext other
  by_cases h : other = name
  · rw [h, hname, Function.update_self]
  · rw [hother other h, Function.update_of_ne h]

theorem slot_putService (service : Service) : (sm.putService name service).slot =
    Function.update sm.slot name { sm.slot name with service := some service } := by
  apply slot_update
  · simp [slot, putService]
  · intro other h
    simp [slot, putService, Ne.symm h, Std.ExtTreeMap.getElem?_insert]

theorem slot_modifyService (f : Service → Service) : (sm.modifyService name f).slot =
    Function.update sm.slot name { sm.slot name with service := (sm.slot name).service.map f } := by
  apply slot_update
  · simp [slot, modifyService]
  · intro other h
    simp [slot, modifyService, Ne.symm h, Std.ExtTreeMap.getElem?_modify]

theorem slot_eraseService : (sm.eraseService name).slot =
    Function.update sm.slot name { sm.slot name with service := none } := by
  apply slot_update
  · simp [slot, eraseService]
  · intro other h
    simp [slot, eraseService, Ne.symm h, Std.ExtTreeMap.getElem?_erase]

theorem slot_putWatchers (watchers : List IBinder) : (sm.putWatchers name watchers).slot =
    Function.update sm.slot name { sm.slot name with watchers } := by
  apply slot_update
  · simp [slot, putWatchers]
  · intro other h
    simp [slot, putWatchers, Ne.symm h, Std.ExtTreeMap.getElem?_insert]

theorem slot_alterWatchers (watchers : Option (List IBinder)) : (sm.alterWatchers name watchers).slot =
    Function.update sm.slot name { sm.slot name with watchers := watchers.getD [] } := by
  apply slot_update
  · simp [slot, alterWatchers]
  · intro other h
    simp [slot, alterWatchers, Ne.symm h, Std.ExtTreeMap.getElem?_alter]

theorem slot_putClientCallbacks (clientCallbacks : List IBinder) : (sm.putClientCallbacks name clientCallbacks).slot =
    Function.update sm.slot name { sm.slot name with clientCallbacks } := by
  apply slot_update
  · simp [slot, putClientCallbacks]
  · intro other h
    simp [slot, putClientCallbacks, Ne.symm h, Std.ExtTreeMap.getElem?_insert]

theorem putService_watchers (service : Service) :
    (sm.putService name service).mNameToRegistrationCallback = sm.mNameToRegistrationCallback := rfl

theorem Tidy.putService (h : sm.Tidy) (service : Service) : (sm.putService name service).Tidy :=
  ⟨h.watchers, h.clientCallbacks⟩

theorem Tidy.modifyService (h : sm.Tidy) (f : Service → Service) : (sm.modifyService name f).Tidy :=
  ⟨h.watchers, h.clientCallbacks⟩

theorem Tidy.eraseService (h : sm.Tidy) : (sm.eraseService name).Tidy := ⟨h.watchers, h.clientCallbacks⟩

theorem Tidy.putWatchers (h : sm.Tidy) {watchers : List IBinder} (hne : watchers ≠ []) :
    (sm.putWatchers name watchers).Tidy := by
  refine ⟨fun other => ?_, h.clientCallbacks⟩
  simp only [ServiceManager.putWatchers, Std.ExtTreeMap.getElem?_insert]
  split_ifs
  · simpa using hne
  · exact h.watchers other

theorem Tidy.alterWatchers (h : sm.Tidy) {watchers : Option (List IBinder)} (hne : watchers ≠ some []) :
    (sm.alterWatchers name watchers).Tidy := by
  refine ⟨fun other => ?_, h.clientCallbacks⟩
  simp only [ServiceManager.alterWatchers, Std.ExtTreeMap.getElem?_alter]
  split_ifs
  · exact hne
  · exact h.watchers other

theorem Tidy.putClientCallbacks (h : sm.Tidy) {callbacks : List IBinder} (hne : callbacks ≠ []) :
    (sm.putClientCallbacks name callbacks).Tidy := by
  refine ⟨h.watchers, fun other => ?_⟩
  simp only [ServiceManager.putClientCallbacks, Std.ExtTreeMap.getElem?_insert]
  split_ifs
  · simpa using hne
  · exact h.clientCallbacks other

theorem removeListeners_getD (who : Option IBinder) (listeners : List IBinder) :
    (removeListeners who listeners).getD [] = Slot.without who listeners := by
  unfold removeListeners Slot.without
  cases listeners.filter (fun listener => some listener ≠ who) <;> rfl

theorem removeListeners_ne (who : Option IBinder) (listeners : List IBinder) :
    removeListeners who listeners ≠ some [] := by
  unfold removeListeners
  cases listeners.filter (fun listener => some listener ≠ who) <;> simp

theorem clientCallbacks_some (hne : (sm.slot name).clientCallbacks ≠ []) :
    sm.mNameToClientCallback[name]? = some (sm.slot name).clientCallbacks := by
  cases hfind : sm.mNameToClientCallback[name]? with
  | none => exact absurd (by simp [slot, hfind]) hne
  | some callbacks => simp [slot, hfind]

theorem Tidy.clientCallbacks_none (h : sm.Tidy) (hnil : (sm.slot name).clientCallbacks = []) :
    sm.mNameToClientCallback[name]? = none := by
  have hne := h.clientCallbacks name
  cases hfind : sm.mNameToClientCallback[name]? with
  | none => rfl
  | some callbacks =>
    have hcallbacks : callbacks = [] := by simpa [slot, hfind] using hnil
    rw [hfind, hcallbacks] at hne
    exact absurd rfl hne

end Tables

structure Serves {β : Type} (sm : ServiceManager) (name : Bytes) (r : β × List Notice × ServiceManager)
    (a : β × List Notice × Slot) : Prop where
  answer : r.1 = a.1
  notices : r.2.1 = a.2.1
  slot : r.2.2.slot = Function.update sm.slot name a.2.2
  tidy : sm.Tidy → r.2.2.Tidy

theorem Serves.keep {β : Type} (answer : β) (notices : List Notice) :
    Serves sm name (answer, notices, sm) (answer, notices, sm.slot name) :=
  ⟨rfl, rfl, (Function.update_eq_self name sm.slot).symm, id⟩

variable (sm world name) in
theorem tryGetService_serves (ctx : CallingContext) (startIfNotFound : Bool) :
    Serves sm name (sm.tryGetService world ctx name startIfNotFound)
      ((sm.slot name).lookup world ctx name startIfNotFound) := by
  unfold tryGetService Slot.lookup Slot.sees
  have hservice : (sm.slot name).service = sm.mNameToService[name]? := rfl
  rw [hservice]
  cases hisolated : (sm.mNameToService[name]?).any (fun service => !service.allowIsolated && isIsolated ctx) with
  | true =>
    simp only [hisolated, if_true, Bool.not_true, Bool.false_and, Bool.false_eq_true, if_false]
    exact Serves.keep _ _
  | false =>
    cases hfind : world.selinux.canFind ctx name with
    | false =>
      simp only [hisolated, Bool.false_eq_true, if_false, Bool.not_false, if_true, Bool.and_false]
      exact Serves.keep _ _
    | true =>
      simp only [hisolated, Bool.false_eq_true, if_false, Bool.not_true, Bool.not_false, Bool.and_true, if_true]
      cases hs : sm.mNameToService[name]? with
      | none =>
        have hsame : (sm.slot name).guarantee = sm.slot name := by simp [Slot.guarantee, slot, hs]
        rw [hsame]
        exact Serves.keep _ _
      | some service =>
        have hmark : (sm.slot name).guarantee =
            { sm.slot name with service := some { service with guaranteeClient := true } } := by
          simp [Slot.guarantee, slot, hs]
        rw [hmark]
        exact ⟨rfl, rfl, slot_putService _, fun h => h.putService _⟩

variable (sm name) in
theorem announce_serves (binder : IBinder) (callbacks : List IBinder) :
    Serves sm name ((), announce name binder callbacks sm)
      ((), callbacks.map (fun cb => Notice.onRegistration cb name binder),
        if callbacks.isEmpty then sm.slot name else (sm.slot name).guarantee) := by
  induction callbacks generalizing sm with
  | nil => exact Serves.keep _ _
  | cons cb callbacks ih =>
    obtain ⟨-, hnotices, hrest, htidy⟩ :=
      ih (sm.modifyService name (fun service => { service with guaranteeClient := true }))
    refine ⟨rfl, ?_, ?_, fun h => htidy (h.modifyService _)⟩
    · simp only [announce, List.map_cons]
      rw [hnotices]
    · simp only [announce]
      rw [hrest, slot_modifyService, Function.update_self, Function.update_idem]
      congr 1
      cases callbacks with
      | nil => rfl
      | cons cb callbacks => simp [Slot.guarantee, Function.comp_def]

variable (sm world name) in
theorem addService_serves (ctx : CallingContext) (binder : Option IBinder) (allowIsolated : Bool)
    (dumpPriority : BitVec 32) :
    Serves sm name (sm.addService world ctx name binder allowIsolated dumpPriority)
      ((sm.slot name).add world ctx name binder allowIsolated dumpPriority) := by
  unfold addService Slot.add Slot.admission
  cases binder with
  | none => split_ifs <;> exact Serves.keep _ _
  | some binder =>
    simp only
    split_ifs with huid hadd hvalid hdeclared hlink
    · exact Serves.keep _ _
    · exact Serves.keep _ _
    · exact Serves.keep _ _
    · exact Serves.keep _ _
    · exact Serves.keep _ _
    · let service : Service := { binder, allowIsolated, dumpPriority, debugPid := ctx.debugPid }
      cases hwatch : sm.mNameToRegistrationCallback[name]? with
      | none =>
        have hnil : (sm.slot name).watchers = [] := by simp [slot, hwatch]
        simp only [putService_watchers, hwatch, hnil]
        exact ⟨rfl, rfl, by simp only [slot_putService, hnil]; rfl, fun h => h.putService _⟩
      | some callbacks =>
        have hcallbacks : (sm.slot name).watchers = callbacks := by simp [slot, hwatch]
        obtain ⟨-, hnotices, hrest, htidy⟩ :=
          announce_serves (sm.putService name service) name binder callbacks
        simp only [putService_watchers, hwatch, hcallbacks]
        refine ⟨rfl, hnotices, ?_, fun h => htidy (h.putService _)⟩
        rw [hrest, slot_putService, Function.update_self, Function.update_idem]
        congr 1
        cases callbacks <;> simp [Slot.guarantee, hcallbacks, service]

variable (sm world name) in
theorem registerForNotifications_serves (ctx : CallingContext) (callback : Option IBinder) :
    Serves sm name (sm.registerForNotifications world ctx name callback)
      ((sm.slot name).watch world ctx name callback) := by
  unfold registerForNotifications Slot.watch
  split_ifs with hfind hvalid
  · exact Serves.keep _ _
  · exact Serves.keep _ _
  · cases callback with
    | none => exact Serves.keep _ _
    | some callback =>
      simp only
      split_ifs with hlink
      · exact Serves.keep _ _
      · have hservice (watchers : List IBinder) :
            (sm.putWatchers name watchers).mNameToService[name]? = (sm.slot name).service := rfl
        have htidy (h : sm.Tidy) :
            (sm.putWatchers name ((sm.mNameToRegistrationCallback[name]?).getD [] ++ [callback])).Tidy :=
          h.putWatchers (by simp)
        simp only [hservice]
        cases hs : (sm.slot name).service with
        | none => exact ⟨rfl, rfl, by simp only [slot_putWatchers, hs]; rfl, htidy⟩
        | some service => exact ⟨rfl, rfl, by simp only [slot_putWatchers, hs]; rfl, htidy⟩

variable (sm world name) in
theorem unregisterForNotifications_serves (ctx : CallingContext) (callback : Option IBinder) :
    Serves sm name
      ((sm.unregisterForNotifications world ctx name callback).1, [],
        (sm.unregisterForNotifications world ctx name callback).2)
      (((sm.slot name).unwatch world ctx name callback).1, [], ((sm.slot name).unwatch world ctx name callback).2) := by
  unfold unregisterForNotifications Slot.unwatch
  split_ifs with hfind hany
  · exact Serves.keep _ _
  · cases hwatch : sm.mNameToRegistrationCallback[name]? with
    | none => simp [slot, hwatch] at hany
    | some listeners =>
      have hlisteners : (sm.slot name).watchers = listeners := by simp [slot, hwatch]
      rw [hlisteners] at hany ⊢
      simp only [hany, if_true]
      refine ⟨rfl, rfl, ?_, fun h => h.alterWatchers (removeListeners_ne _ _)⟩
      rw [slot_alterWatchers, removeListeners_getD]
  · cases hwatch : sm.mNameToRegistrationCallback[name]? with
    | none => exact Serves.keep _ _
    | some listeners =>
      have hlisteners : (sm.slot name).watchers = listeners := by simp [slot, hwatch]
      have hkeep : Slot.without callback listeners = listeners := by
        rw [hlisteners] at hany
        apply List.filter_eq_self.mpr
        simpa using hany
      rw [hlisteners] at hany
      simp only [hany]
      refine ⟨rfl, rfl, ?_, fun h => h.alterWatchers (removeListeners_ne _ _)⟩
      rw [if_neg (by decide), slot_alterWatchers, removeListeners_getD, hkeep, ← hlisteners]

variable (sm world name) in
theorem registerClientCallback_serves (ipc : IPCThreadState) (service cb : Option IBinder) :
    Serves sm name
      ((sm.registerClientCallback world ipc name service cb).1, [],
        (sm.registerClientCallback world ipc name service cb).2)
      (((sm.slot name).watchClients world ipc name service cb).1, [],
        ((sm.slot name).watchClients world ipc name service cb).2) := by
  unfold registerClientCallback Slot.watchClients
  cases cb with
  | none => exact Serves.keep _ _
  | some cb =>
    simp only
    cases hadd : world.selinux.canAdd (world.selinux.getCallingContext ipc) name with
    | false => exact Serves.keep _ _
    | true =>
      have hservice : (sm.slot name).service = sm.mNameToService[name]? := rfl
      simp only [← hservice, Bool.not_true, Bool.false_eq_true, if_false]
      cases hs : (sm.slot name).service with
      | none => exact Serves.keep _ _
      | some entry =>
        simp only
        split_ifs with hpid hbinder hlink
        · exact Serves.keep _ _
        · exact Serves.keep _ _
        · exact Serves.keep _ _
        · exact ⟨rfl, rfl, by simp only [slot_putClientCallbacks, hs]; rfl, fun h => h.putClientCallbacks (by simp)⟩

theorem sendClientCallbackNotifications_some {service : Service} (hs : (sm.slot name).service = some service)
    (hne : (sm.slot name).clientCallbacks ≠ []) (hasClients : Bool) (hchange : hasClients ≠ service.hasClients) :
    sm.sendClientCallbackNotifications name hasClients =
      some ((sm.slot name).onClients name service [hasClients], sm.putService name { service with hasClients }) := by
  have hfind : sm.mNameToService[name]? = some service := hs
  unfold sendClientCallbackNotifications
  rw [hfind, clientCallbacks_some hne]
  simp [hchange, Slot.onClients]

def Puts (sm : ServiceManager) (name : Bytes) (service : Service) (after : ServiceManager) : Prop :=
  after.slot = Function.update sm.slot name { sm.slot name with service := some service } ∧ (sm.Tidy → after.Tidy)

theorem Puts.service {service : Service} {after : ServiceManager} (h : Puts sm name service after) :
    (after.slot name).service = some service := by
  rw [h.1, Function.update_self]

theorem Puts.clientCallbacks {service : Service} {after : ServiceManager} (h : Puts sm name service after) :
    (after.slot name).clientCallbacks = (sm.slot name).clientCallbacks := by
  rw [h.1, Function.update_self]

theorem Puts.trans {service next : Service} {after last : ServiceManager} (h : Puts sm name service after)
    (hnext : Puts after name next last) : Puts sm name next last := by
  refine ⟨?_, fun htidy => hnext.2 (h.2 htidy)⟩
  rw [hnext.1, h.1, Function.update_self, Function.update_idem]

theorem Puts.self {service : Service} (hs : (sm.slot name).service = some service) : Puts sm name service sm := by
  refine ⟨?_, id⟩
  rw [← hs, Function.update_eq_self]

variable (sm name) in
theorem Puts.put (service : Service) : Puts sm name service (sm.putService name service) :=
  ⟨slot_putService service, fun h => h.putService _⟩

theorem Puts.modify {service : Service} (hs : (sm.slot name).service = some service) (f : Service → Service) :
    Puts sm name (f service) (sm.modifyService name f) := by
  refine ⟨?_, fun h => h.modifyService _⟩
  rw [slot_modifyService, hs, Option.map_some]

theorem spendGuarantee_some {service : Service} (hs : (sm.slot name).service = some service)
    (hne : (sm.slot name).clientCallbacks ≠ []) (hasClients : Bool) :
    ∃ after, sm.spendGuarantee name service hasClients =
        some ((sm.slot name).onClients name service
          (if service.guaranteeClient && !service.hasClients && !hasClients then [true] else []), after) ∧
      Puts sm name { service with
        hasClients := service.hasClients || (service.guaranteeClient && !hasClients)
        guaranteeClient := false } after := by
  unfold spendGuarantee
  cases hguarantee : service.guaranteeClient with
  | false =>
    refine ⟨sm, by simp [Slot.onClients], ?_⟩
    have hsame : { service with hasClients := service.hasClients || (false && !hasClients), guaranteeClient := false } =
        service := by
      cases service
      simpa using hguarantee.symm
    rw [hsame]
    exact Puts.self hs
  | true =>
    cases hquiet : !service.hasClients && !hasClients with
    | false =>
      refine ⟨_, by simp [hquiet, Slot.onClients]; rfl, ?_⟩
      have hrecord :
          { service with
            hasClients := service.hasClients || (true && !hasClients)
            guaranteeClient := false } =
          { service with guaranteeClient := false } := by
        cases hr : service.hasClients <;> cases hasClients <;> simp_all
      rw [hrecord]
      exact Puts.modify hs (fun service => { service with guaranteeClient := false })
    | true =>
      have hr : service.hasClients = false := by simp_all
      have hsend := sendClientCallbackNotifications_some hs hne true (by simp [hr])
      refine ⟨_, by simp [hquiet, hsend]; rfl, ?_⟩
      have hput := Puts.put sm name { service with hasClients := true }
      have hclear := hput.trans (Puts.modify hput.service (fun service => { service with guaranteeClient := false }))
      have hnone : hasClients = false := by simp_all
      simpa [hr, hnone] using hclear

theorem noticeInterval_some {service : Service} (hs : (sm.slot name).service = some service)
    (hne : (sm.slot name).clientCallbacks ≠ []) (hasClients : Bool) :
    ∃ after, sm.noticeInterval name hasClients =
        some ((sm.slot name).onClients name service (if hasClients = service.hasClients then [] else [hasClients]),
          after) ∧
      Puts sm name { service with hasClients } after := by
  have hrecorded : sm.recordedClients name = service.hasClients := by
    have hfind : sm.mNameToService[name]? = some service := hs
    rw [recordedClients, hfind, Option.any_some]
  have hput := Puts.put sm name { service with hasClients }
  unfold noticeInterval
  cases hasClients with
  | true =>
    cases hr : service.hasClients with
    | true =>
      refine ⟨sm, by simp [hrecorded, hr, Slot.onClients], ?_⟩
      rw [← hr]
      exact Puts.self hs
    | false =>
      have hsend := sendClientCallbackNotifications_some hs hne true (by simp [hr])
      refine ⟨_, ?_, hput⟩
      simp [hrecorded, hr, hsend]
  | false =>
    cases hr : service.hasClients with
    | false =>
      refine ⟨sm, by simp [hrecorded, hr, Slot.onClients], ?_⟩
      rw [← hr]
      exact Puts.self hs
    | true =>
      have hsend := sendClientCallbackNotifications_some hs hne false (by simp [hr])
      refine ⟨_, ?_, hput⟩
      simp [hrecorded, hr, hsend]

theorem handleServiceClientCallback_none (h : sm.Tidy) (hcount : (sm.slot name).count world = -1)
    (isCalledOnInterval : Bool) :
    sm.handleServiceClientCallback world name isCalledOnInterval = some (-1, [], sm) := by
  have hservice : (sm.slot name).service = sm.mNameToService[name]? := rfl
  unfold handleServiceClientCallback
  unfold Slot.count at hcount
  rw [hservice] at hcount
  cases hs : sm.mNameToService[name]? with
  | none => rfl
  | some service =>
    cases hcb : sm.mNameToClientCallback[name]? with
    | none => rfl
    | some callbacks =>
      have hne : (sm.slot name).clientCallbacks ≠ [] := by
        intro hnil
        rw [h.clientCallbacks_none hnil] at hcb
        cases hcb
      simp only [hs, hne, if_false] at hcount
      simp [hcount]

variable (world name) in
theorem handleServiceClientCallback_timer (h : sm.Tidy) :
    ∃ count after, sm.handleServiceClientCallback world name true =
        some (count, ((sm.slot name).timer world name).1, after) ∧
      after.slot = Function.update sm.slot name ((sm.slot name).timer world name).2 ∧ after.Tidy := by
  by_cases hcount : (sm.slot name).count world = -1
  · have hkeep : (sm.slot name).timer world name = ([], sm.slot name) := by
      unfold Slot.timer
      cases (sm.slot name).service <;> simp [hcount]
    rw [hkeep]
    exact ⟨-1, sm, handleServiceClientCallback_none h hcount true, (Function.update_eq_self name sm.slot).symm, h⟩
  · obtain ⟨service, hs, hne, hnode⟩ := Slot.count_some hcount
    obtain ⟨between, hspend, hbetween⟩ := spendGuarantee_some hs hne ((sm.slot name).count world > 1)
    obtain ⟨after, hnotice, hafter⟩ := noticeInterval_some hbetween.service
        (by rw [hbetween.clientCallbacks]; exact hne)
      ((sm.slot name).count world > 1)
    have hfind : sm.mNameToService[name]? = some service := hs
    have hput := hbetween.trans hafter
    refine ⟨(sm.slot name).count world, after, ?_, ?_, hput.2 h⟩
    · unfold handleServiceClientCallback
      rw [hfind, clientCallbacks_some hne]
      simp only [← hnode, hcount, if_false, hspend, Option.bind_eq_bind, Option.bind_some, if_true, hnotice]
      unfold Slot.timer
      simp only [hs, hcount, if_false, Slot.reports_split, Slot.onClients, List.flatMap_append,
        hbetween.clientCallbacks]
      rfl
    · rw [hput.1]
      unfold Slot.timer
      simp only [hs, hcount, if_false]

theorem handleServiceClientCallback_plain (h : sm.Tidy) {service : Service} (hs : (sm.slot name).service = some service)
    (hguarantee : service.guaranteeClient = false) :
    sm.handleServiceClientCallback world name false = some ((sm.slot name).count world, [], sm) := by
  by_cases hcount : (sm.slot name).count world = -1
  · rw [hcount]
    exact handleServiceClientCallback_none h hcount false
  · obtain ⟨found, hfound, hne, hnode⟩ := Slot.count_some hcount
    rw [hs, Option.some.injEq] at hfound
    subst hfound
    have hfind : sm.mNameToService[name]? = some service := hs
    have hspend : sm.spendGuarantee name service ((sm.slot name).count world > 1) = some ([], sm) := by
      simp [spendGuarantee, hguarantee]
    unfold handleServiceClientCallback
    rw [hfind, clientCallbacks_some hne]
    simp only [← hnode, hcount, if_false, hspend, Option.bind_eq_bind, Option.bind_some]
    rfl

variable (world) in
theorem tryUnregisterService_serves (h : sm.Tidy) (ipc : IPCThreadState) (binder : Option IBinder) :
    ∃ r, sm.tryUnregisterService world ipc name binder = some r ∧
      Serves sm name r
        (((sm.slot name).unregister world ipc name binder).1, [],
          ((sm.slot name).unregister world ipc name binder).2) := by
  unfold tryUnregisterService Slot.unregister
  cases binder with
  | none => exact ⟨_, rfl, Serves.keep _ _⟩
  | some binder =>
    simp only
    cases hadd : world.selinux.canAdd (world.selinux.getCallingContext ipc) name with
    | false => exact ⟨_, rfl, Serves.keep _ _⟩
    | true =>
      have hservice : (sm.slot name).service = sm.mNameToService[name]? := rfl
      simp only [← hservice, Bool.not_true, Bool.false_eq_true, if_false]
      cases hs : (sm.slot name).service with
      | none => exact ⟨_, rfl, Serves.keep _ _⟩
      | some service =>
        simp only
        split_ifs with hpid hbinder hguarantee hclients
        · exact ⟨_, rfl, Serves.keep _ _⟩
        · exact ⟨_, rfl, Serves.keep _ _⟩
        · exact ⟨_, rfl, Serves.keep _ _⟩
        · rw [handleServiceClientCallback_plain h hs (by simpa using hguarantee)]
          simp only [Option.bind_eq_bind, Option.bind_some, hclients, if_true]
          refine ⟨_, rfl, rfl, rfl, ?_, fun h => h.modifyService _⟩
          exact slot_modifyService _
        · rw [handleServiceClientCallback_plain h hs (by simpa using hguarantee)]
          simp only [Option.bind_eq_bind, Option.bind_some, hclients, if_false]
          exact ⟨_, rfl, rfl, rfl, slot_eraseService, fun h => h.eraseService⟩

theorem timer_nowhere (hs : (sm.slot name).service = none) : (sm.slot name).timer world name = ([], sm.slot name) := by
  unfold Slot.timer
  rw [hs]

variable (world) in
theorem handleClientCallbacksOf_slot (h : sm.Tidy) {names : List Bytes} (hnames : names.Nodup) :
    ∃ notices after, handleClientCallbacksOf world names sm = some (notices, after) ∧ after.Tidy ∧
      ∀ name, after.slot name =
          (if name ∈ names then ((sm.slot name).timer world name).2 else sm.slot name) ∧
        notices.filter (fun notice => notice.name = name) =
          if name ∈ names then ((sm.slot name).timer world name).1 else [] := by
  induction names generalizing sm with
  | nil => exact ⟨[], sm, rfl, h, fun name => ⟨by simp, by simp⟩⟩
  | cons name names ih =>
    rw [List.nodup_cons] at hnames
    obtain ⟨count, between, hfirst, hslot, hbetween⟩ := handleServiceClientCallback_timer world name h
    obtain ⟨notices, after, hrest, hafter, hall⟩ := ih hbetween hnames.2
    refine ⟨((sm.slot name).timer world name).1 ++ notices, after, ?_, hafter, fun other => ?_⟩
    · rw [handleClientCallbacksOf, hfirst]
      simp only [Option.bind_eq_bind, Option.bind_some, hrest]
      rfl
    · obtain ⟨hother, hnotices⟩ := hall other
      rw [List.filter_append, hother, hnotices, hslot, Slot.timer_name]
      by_cases heq : other = name
      · subst heq
        simp [hnames.1]
      · simp [heq]

end ServiceManager

end BinderDownload.Registry
