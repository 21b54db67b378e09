import BinderDownload.Lib.Past
import BinderDownload.Registry.Entries

namespace BinderDownload.Registry

open Text Vintf

def Notice.isRegistration (name : Bytes) : Notice → Bool
  | onRegistration _ n _ => n = name
  | _ => false

/-- A record that guarantees the service of a name a client: somebody looked it up, or its `addService` told those who
watch the name. A `registerForNotifications` that finds the service hands it out too, but guarantees nothing. -/
def Record.guarantees (name : Bytes) (r : Record) : Bool :=
  match r.event with
  | .transact _ _ (.getService n) | .transact _ _ (.checkService n) => n = name ∧ r.answer.out.isSome
  | .transact _ _ (.addService n _ _ _) => n = name ∧ r.notices.any (Notice.isRegistration name)
  | _ => false

/-- A record behind which an older guarantee no longer counts: the timer looked for clients, or the service is new. -/
def Record.settles (name : Bytes) (r : Record) : Bool :=
  match r.event with
  | .timer _ => true
  | .transact _ _ (.addService n _ _ _) => n = name ∧ r.answer.isOk
  | _ => false

def Guaranteed (name : Bytes) (records : List Record) : Prop :=
  Since (fun r => r.guarantees name = true) (fun r => r.settles name = true) records

theorem isRegistration_at (name : Bytes) (notices : List Notice) :
    (notices.filter (fun notice => notice.name = name)).any (Notice.isRegistration name) =
      notices.any (Notice.isRegistration name) := by
  rw [List.any_filter]
  congr 1
  funext notice
  cases notice with
  | onRegistration callback n binder => by_cases hn : n = name <;> simp [Notice.name, Notice.isRegistration, hn]
  | onClients callback n binder hasClients => simp [Notice.isRegistration]
  | tryStartService n => simp [Notice.isRegistration]

theorem guarantees_at (name : Bytes) (r : Record) : (r.at name).guarantees name = r.guarantees name := by
  obtain ⟨event, answer, notices⟩ := r
  cases event with
  | transact ipc world request =>
    cases request with
    | getService n | checkService n =>
      by_cases hn : n = name <;> simp [Record.guarantees, Record.at, Request.name?, hn]
    | addService n binder allowIsolated dumpPriority => simp only [Record.guarantees, Record.at, isRegistration_at]
    | registerForNotifications n callback | unregisterForNotifications n callback | isDeclared n | updatableViaApex n
    | registerClientCallback n service cb | tryUnregisterService n binder | listServices p | getDeclaredInstances i
    | getServiceDebugInfo => rfl
  | binderDied who => rfl
  | timer world => rfl

theorem settles_at (name : Bytes) (r : Record) : (r.at name).settles name = r.settles name := by
  obtain ⟨event, answer, notices⟩ := r
  cases event with
  | transact ipc world request =>
    cases request with
    | addService n binder allowIsolated dumpPriority =>
      by_cases hn : n = name <;> simp [Record.settles, Record.at, Request.name?, hn]
    | getService n | checkService n | registerForNotifications n callback | unregisterForNotifications n callback
    | isDeclared n | updatableViaApex n | registerClientCallback n service cb | tryUnregisterService n binder
    | listServices p | getDeclaredInstances i | getServiceDebugInfo => rfl
  | binderDied who => rfl
  | timer world => rfl

theorem guaranteed_at (name : Bytes) (records : List Record) :
    Guaranteed name (records.map (Record.at name)) ↔ Guaranteed name records :=
  since_map (fun r => by rw [guarantees_at]) (fun r => by rw [settles_at])

def Guarded (name : Bytes) (s : Slot) (records : List Record) : Prop :=
  Guaranteed name records → ∀ service, s.service = some service → service.guaranteeClient = true

theorem Guarded.same {name : Bytes} {s after : Slot} {records : List Record} {r : Record} (h : Guarded name s records)
    (hnone : r.guarantees name = false)
    (hservice : ∀ service, after.service = some service → ∃ before, s.service = some before ∧
      (before.guaranteeClient = true → service.guaranteeClient = true)) : Guarded name after (records ++ [r]) := by
  intro hout service hs
  rcases since_append.mp hout with hnow | ⟨hbefore, -⟩
  · rw [hnone] at hnow
    cases hnow
  · obtain ⟨before, hfound, hkeep⟩ := hservice service hs
    exact hkeep (h hbefore before hfound)

theorem Guarded.settled {name : Bytes} {after : Slot} {records : List Record} {r : Record}
    (hnone : r.guarantees name = false) (hsettles : r.settles name = true) : Guarded name after (records ++ [r]) := by
  intro hout
  rcases since_append.mp hout with hnow | ⟨-, hkeep⟩
  · rw [hnone] at hnow
    cases hnow
  · exact absurd hsettles hkeep

theorem Guarded.marked {name : Bytes} {after : Slot} {records : List Record} {service : Service}
    (hs : after.service = some service) (hguarantee : service.guaranteeClient = true) : Guarded name after records := by
  intro hout found hfound
  rw [hs, Option.some.injEq] at hfound
  rw [← hfound]
  exact hguarantee

theorem Guarded.step {name : Bytes} {s after : Slot} {records : List Record} {event : Event} {answer : Answer}
    {notices : List Notice} (h : Guarded name s records) (heffect : Slot.Effect name s event answer notices after) :
    Guarded name after (records ++ [⟨event, answer, notices⟩]) := by
  cases heffect with
  | @quiet ipc world request answer notices hok hout hnotices =>
    have hkeep (hnone : (Record.mk (.transact ipc world request) answer notices).guarantees name = false) :=
      h.same hnone (fun service hs => ⟨service, hs, id⟩)
    cases request with
    | getService n | checkService n => exact hkeep (by simp [Record.guarantees, hout])
    | addService n binder allowIsolated dumpPriority =>
      have hsilent : notices.any (Notice.isRegistration name) = false := by
        rw [List.any_eq_false]
        intro notice hnotice
        rw [hnotices notice hnotice]
        exact Bool.false_ne_true
      exact hkeep (by simp [Record.guarantees, hsilent])
    | registerForNotifications n callback | unregisterForNotifications n callback | isDeclared n | updatableViaApex n
    | registerClientCallback n service cb | tryUnregisterService n binder | listServices p | getDeclaredInstances i
    | getServiceDebugInfo => exact hkeep rfl
  | found hrequest hs hsees => exact Guarded.marked rfl rfl
  | added hallowed =>
    cases hwatchers : s.watchers with
    | nil => exact Guarded.settled (by simp [Record.guarantees]) (by simp [Record.settles])
    | cons cb watchers => exact Guarded.marked rfl rfl
  | watched hfind hvalid hlink | unwatched hmem | clientsWatched hs hpid hlink =>
    exact h.same rfl (fun service hs => ⟨service, hs, id⟩)
  | clung hs hclients => exact Guarded.marked rfl rfl
  | unregistered hs hadd hpid hguarantee hcount => exact h.same rfl (fun service hafter => by cases hafter)
  | died => exact h.same rfl (fun service hafter => ⟨service, (Option.filter_eq_some_iff.mp hafter).1, id⟩)
  | asleep hcount | timed hs hcount => exact Guarded.settled rfl rfl

structure Admitted (world : World) (ctx : CallingContext) (name : Bytes) (binder : IBinder) : Prop where
  uid : multiuser_get_app_id ctx.uid < AID_APP
  allowed : world.selinux.canAdd ctx name = true
  valid : isValidServiceName name = true
  declared : meetsDeclarationRequirements world binder name = true
  linked : binder.remoteBinder = true → world.linkToDeath binder = true

theorem Admitted.of_admission {world : World} {ctx : CallingContext} {name : Bytes} {binder : IBinder}
    (h : Slot.admission world ctx name (some binder) = .ok binder) : Admitted world ctx name binder := by
  unfold Slot.admission at h
  simp only at h
  split_ifs at h with huid hadd hvalid hdeclared hlink
  exact ⟨by omega, by simpa using hadd, by simpa using hvalid, by simpa using hdeclared, by simpa using hlink⟩

theorem Slot.Effect.ends {name : Bytes} {s after : Slot} {event : Event} {answer : Answer} {notices : List Notice}
    (h : Effect name s event answer notices after)
    (hchange : after.service.map Service.entry ≠ s.service.map Service.entry) :
    (∃ ipc world binder allowIsolated dumpPriority,
        event = .transact ipc world (.addService name (some binder) allowIsolated dumpPriority) ∧
        after.service.map Service.entry = some ⟨binder, allowIsolated, dumpPriority, ipc.callingPid⟩ ∧
        Admitted world (world.selinux.getCallingContext ipc) name binder) ∨
      after.service.map Service.entry = none ∧ ∃ service, s.service = some service ∧
        (event = .binderDied service.binder ∨
          ∃ ipc world, event = .transact ipc world (.tryUnregisterService name (some service.binder)) ∧
            ipc.callingPid = service.debugPid ∧
            world.selinux.canAdd (world.selinux.getCallingContext ipc) name = true ∧
            0 ≤ s.count world ∧ s.count world ≤ 2 ∧ service.guaranteeClient = false) := by
  cases h with
  | quiet hok hout hnotices | watched hfind hvalid hlink | unwatched hmem | clientsWatched hs hpid hlink
  | asleep hcount => exact absurd rfl hchange
  | found hrequest hs hsees | clung hs hclients | timed hs hcount =>
    rw [hs] at hchange
    exact absurd rfl hchange
  | @added ipc world binder allowIsolated dumpPriority hallowed =>
    exact .inl ⟨ipc, world, binder, allowIsolated, dumpPriority, rfl, rfl, .of_admission hallowed⟩
  | @unregistered ipc world service hs hadd hpid hguarantee hcount =>
    exact .inr ⟨rfl, service, hs, .inr ⟨ipc, world, rfl, hpid.symm, hadd, hcount.1, hcount.2, hguarantee⟩⟩
  | @died who =>
    cases hs : s.service with
    | none =>
      simp only [Slot.died, hs] at hchange
      exact absurd rfl hchange
    | some service =>
      by_cases hwho : who = service.binder
      · exact .inr ⟨by simp [Slot.died, hs, Option.filter_some, hwho], service, rfl, .inl (by rw [hwho])⟩
      · simp [Slot.died, hs, Option.filter_some, hwho] at hchange

namespace Journal

variable {j k : Journal} {events : List Event} {event : Event} {name : Bytes}

theorem run_guarded (hrun : run step {} events = some j) (name : Bytes) :
    Guarded name (j.manager.slot name) j.records := by
  intro hout
  rw [← guaranteed_at] at hout
  refine run_slot (P := Guarded name) hrun ?_ (fun s records event answer notices after hs heffect => hs.step heffect)
    hout
  intro hnil
  exact absurd hnil not_since_nil

theorem run_ends (hrun : run step {} events = some j) (hstep : j.step event = some k)
    (hchange : entryOf name k.records ≠ entryOf name j.records) :
    (∃ ipc world binder allowIsolated dumpPriority,
        event = .transact ipc world (.addService name (some binder) allowIsolated dumpPriority) ∧
        entryOf name k.records = some ⟨binder, allowIsolated, dumpPriority, ipc.callingPid⟩ ∧
        Admitted world (world.selinux.getCallingContext ipc) name binder) ∨
      entryOf name k.records = none ∧ ∃ entry, entryOf name j.records = some entry ∧
        (event = .binderDied entry.binder ∨
          ∃ ipc world, event = .transact ipc world (.tryUnregisterService name (some entry.binder)) ∧
            ipc.callingPid = entry.debugPid ∧ world.selinux.canAdd (world.selinux.getCallingContext ipc) name = true ∧
            0 ≤ (j.manager.slot name).count world ∧ (j.manager.slot name).count world ≤ 2 ∧
            ¬ Guaranteed name j.records) := by
  obtain ⟨answer, notices, after, hnext, -, -, hall⟩ := step_some (run_tidy hrun) event
  rw [hstep, Option.some.injEq] at hnext
  have hlater : run step {} (events ++ [event]) = some k := by
    rw [run_append hrun, run, hstep]
    rfl
  have hafter : (k.manager.slot name).service.map Service.entry = entryOf name k.records := run_entry hlater name
  have hbefore : (j.manager.slot name).service.map Service.entry = entryOf name j.records := run_entry hrun name
  have hslot : k.manager.slot name = (Slot.handle name (j.manager.slot name) event).2.2 := by
    rw [hnext]
    exact (hall name).1
  have heffect := Slot.handle_effect name (j.manager.slot name) event
  rw [← hslot] at heffect
  rw [← hafter, ← hbefore] at hchange ⊢
  rcases heffect.ends hchange with hadded | ⟨hnone, service, hs, hend⟩
  · exact .inl hadded
  · refine .inr ⟨hnone, service.entry, by rw [hs]; rfl, ?_⟩
    rcases hend with hdied | ⟨ipc, world, hevent, hpid, hadd, hlow, hhigh, hguarantee⟩
    · exact .inl hdied
    · refine .inr ⟨ipc, world, hevent, hpid, hadd, hlow, hhigh, fun hout => ?_⟩
      rw [run_guarded hrun name hout service hs] at hguarantee
      cases hguarantee

end Journal

theorem Journal.run_ends_foo : ∃ j k, run Journal.step {} [addFoo 1] = some j ∧
    j.step (.binderDied ⟨1, true⟩) = some k ∧ entryOf (ascii "foo") k.records = none ∧
    ∃ entry, entryOf (ascii "foo") j.records = some entry ∧ entry.binder = ⟨1, true⟩ := by
  refine ⟨_, _, rfl, rfl, ?_⟩
  rcases @run_ends _ _ [addFoo 1] (.binderDied ⟨1, true⟩) (ascii "foo") rfl rfl (by decide) with
    ⟨ipc, world, binder, allowIsolated, dumpPriority, hevent, -⟩ | ⟨hnone, entry, hentry, hend⟩
  · cases hevent
  · refine ⟨hnone, entry, hentry, ?_⟩
    rcases hend with hdied | ⟨ipc, world, hevent, -⟩
    · exact (Event.binderDied.inj hdied).symm
    · cases hevent

example :
    let watch : Event := .transact root .calm (.registerForNotifications (ascii "foo") (some ⟨7, true⟩))
    let take : Event := .transact root .calm (.tryUnregisterService (ascii "foo") (some ⟨1, true⟩))
    (run Journal.step {} [addFoo 1, .transact root .calm (.registerClientCallback (ascii "foo") (some ⟨1, true⟩)
      (some ⟨8, true⟩)), watch, take]).map (fun j => j.records.map (fun r => (r.notices, r.answer.isOk))) =
      some [([], true), ([], true), ([.onRegistration ⟨7, true⟩ (ascii "foo") ⟨1, true⟩], true), ([], true)] := by
  decide

end BinderDownload.Registry
