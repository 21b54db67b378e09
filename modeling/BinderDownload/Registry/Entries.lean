import BinderDownload.Registry.Runs

namespace BinderDownload.Registry

open Text Vintf

structure Entry where
  binder : IBinder
  allowIsolated : Bool
  dumpPriority : BitVec 32
  debugPid : Int
  deriving DecidableEq

def Service.entry (service : Service) : Entry :=
  ⟨service.binder, service.allowIsolated, service.dumpPriority, service.debugPid⟩

/-- The last accepted `addService` decides, until its binder dies or is taken back. -/
def Entry.after (name : Bytes) (entry : Option Entry) (r : Record) : Option Entry :=
  match r.event with
  | .transact ipc _ (.addService n (some binder) allowIsolated dumpPriority) =>
    if n = name ∧ r.answer.isOk then some ⟨binder, allowIsolated, dumpPriority, ipc.callingPid⟩ else entry
  | .transact _ _ (.tryUnregisterService n _) => if n = name ∧ r.answer.isOk then none else entry
  | .binderDied who => entry.filter (fun entry => who ≠ entry.binder)
  | _ => entry

def entryOf (name : Bytes) (records : List Record) : Option Entry := records.foldl (Entry.after name) none

theorem entryOf_append (name : Bytes) (records : List Record) (r : Record) :
    entryOf name (records ++ [r]) = Entry.after name (entryOf name records) r := by
  rw [entryOf, List.foldl_append]
  rfl

theorem Entry.after_at (name : Bytes) (entry : Option Entry) (r : Record) :
    Entry.after name entry (r.at name) = Entry.after name entry r := by
  obtain ⟨event, answer, notices⟩ := r
  cases event with
  | transact ipc world request =>
    by_cases hname : request.name? = some name
    · simp [Record.at, Entry.after, hname]
    · cases request with
      | addService n binder allowIsolated dumpPriority =>
        have hne : n ≠ name := fun h => hname (congrArg some h)
        cases binder with
        | none => rfl
        | some binder => simp [Entry.after, Record.at, hne]
      | tryUnregisterService n binder =>
        have hne : n ≠ name := fun h => hname (congrArg some h)
        simp [Entry.after, Record.at, hne]
      | getService n | checkService n | registerForNotifications n callback | unregisterForNotifications n callback
      | isDeclared n | updatableViaApex n | registerClientCallback n service cb | listServices p
      | getDeclaredInstances i | getServiceDebugInfo => rfl
  | binderDied who => rfl
  | timer world => rfl

theorem entryOf_at (name : Bytes) (records : List Record) :
    entryOf name (records.map (Record.at name)) = entryOf name records := by
  rw [entryOf, List.foldl_map]
  simp only [Entry.after_at]
  rfl

namespace Slot

theorem Effect.entry {name : Bytes} {s after : Slot} {event : Event} {answer : Answer} {notices : List Notice}
    (h : Effect name s event answer notices after) :
    after.service.map Service.entry = Entry.after name (s.service.map Service.entry) ⟨event, answer, notices⟩ := by
  cases h with
  | @quiet ipc world request answer notices hok hout hnotices =>
    cases request with
    | addService n binder allowIsolated dumpPriority => cases binder <;> simp [Entry.after, hok]
    | tryUnregisterService n binder => simp [Entry.after, hok]
    | getService n | checkService n | registerForNotifications n callback | unregisterForNotifications n callback
    | isDeclared n | updatableViaApex n | registerClientCallback n service cb | listServices p
    | getDeclaredInstances i | getServiceDebugInfo => rfl
  | found hrequest hs hsees => rcases hrequest with rfl | rfl <;> simp [Entry.after, hs, Service.entry]
  | added hallowed => simp [Entry.after, Service.entry]
  | watched hfind hvalid hlink => rfl
  | unwatched hmem => rfl
  | clientsWatched hs hpid hlink => rfl
  | clung hs hclients => simp [Entry.after, hs, Service.entry]
  | unregistered hs hadd hpid hguarantee hcount => simp [Entry.after]
  | @died who =>
    simp only [Slot.died, Entry.after]
    cases s.service with
    | none => rfl
    | some service => by_cases hwho : who = service.binder <;> simp [Option.filter_some, hwho, Service.entry]
  | asleep hcount => rfl
  | timed hs hcount => simp [Entry.after, hs, Service.entry]

end Slot

namespace Journal

variable {j : Journal} {events : List Event}

def ask (j : Journal) (ipc : IPCThreadState) (world : World) (request : Request) : Option Answer :=
  (j.manager.onTransact ipc world request).map Prod.fst

theorem run_entry (hrun : run step {} events = some j) (name : Bytes) :
    (j.manager.mNameToService[name]?).map Service.entry = entryOf name j.records := by
  rw [← entryOf_at]
  apply run_slot (P := fun s records => s.service.map Service.entry = entryOf name records) hrun
  · rfl
  · intro s records event answer notices after hs heffect
    rw [entryOf_append, ← hs]
    exact heffect.entry

theorem lookup_entry (hrun : run step {} events = some j) (ipc : IPCThreadState) (world : World) {name : Bytes}
    {request : Request} (hrequest : request = .getService name ∨ request = .checkService name) :
    j.ask ipc world request = some (.binder (((entryOf name j.records).filter (fun entry =>
      (entry.allowIsolated || !isIsolated (world.selinux.getCallingContext ipc)) &&
        world.selinux.canFind (world.selinux.getCallingContext ipc) name)).map Entry.binder)) := by
  have hentry := run_entry hrun name
  have hlookup (startIfNotFound : Bool) :
      (j.manager.tryGetService world (world.selinux.getCallingContext ipc) name startIfNotFound).1 =
        ((entryOf name j.records).filter (fun entry =>
          (entry.allowIsolated || !isIsolated (world.selinux.getCallingContext ipc)) &&
            world.selinux.canFind (world.selinux.getCallingContext ipc) name)).map Entry.binder := by
    rw [(ServiceManager.tryGetService_serves _ _ _ _ _).answer, ← hentry]
    unfold Slot.lookup Slot.sees ServiceManager.slot
    cases hs : j.manager.mNameToService[name]? with
    | none =>
      simp only [Option.any_none, Bool.not_false, Bool.true_and, Option.map_none, Option.filter_none]
      split_ifs <;> rfl
    | some service =>
      simp only [Option.any_some, Option.map_some, Option.filter_some, Service.entry]
      cases service.allowIsolated <;> cases isIsolated (world.selinux.getCallingContext ipc) <;>
        cases world.selinux.canFind (world.selinux.getCallingContext ipc) name <;> rfl
  rcases hrequest with rfl | rfl
  · rw [← hlookup true]
    rfl
  · rw [← hlookup false]
    rfl

theorem entries_sorted (table : StringMap Service) (p : Bytes × Service → Bool) :
    ((table.toList.filter p).map Prod.fst).Pairwise (fun a b => compare a b = .lt) := by
  rw [List.pairwise_map]
  exact (Std.ExtTreeMap.ordered_keys_toList (t := table)).filter p

theorem list_entries (hrun : run step {} events = some j) (dumpPriority : BitVec 32) (name : Bytes) :
    name ∈ (j.manager.mNameToService.toList.filter
        (fun entry => entry.2.dumpPriority &&& dumpPriority ≠ 0)).map Prod.fst ↔
      ∃ entry, entryOf name j.records = some entry ∧ entry.dumpPriority &&& dumpPriority ≠ 0 := by
  rw [← run_entry hrun name, List.mem_map]
  constructor
  · rintro ⟨entry, hmem, rfl⟩
    obtain ⟨hmem, hpriority⟩ := List.mem_filter.mp hmem
    rw [Std.ExtTreeMap.mem_toList_iff_getElem?_eq_some] at hmem
    exact ⟨entry.2.entry, by rw [hmem]; rfl, by simpa [Service.entry] using hpriority⟩
  · rintro ⟨entry, hentry, hpriority⟩
    obtain ⟨service, hs, rfl⟩ := Option.map_eq_some_iff.mp hentry
    refine ⟨(name, service), List.mem_filter.mpr ⟨?_, by simpa [Service.entry] using hpriority⟩, rfl⟩
    exact Std.ExtTreeMap.mem_toList_iff_getElem?_eq_some.mpr hs

theorem run_answers (hrun : run step {} events = some j) (ipc : IPCThreadState) (world : World) :
    (∀ name request, request = .getService name ∨ request = .checkService name →
      j.ask ipc world request = some (.binder (((entryOf name j.records).filter (fun entry =>
        (entry.allowIsolated || !isIsolated (world.selinux.getCallingContext ipc)) &&
          world.selinux.canFind (world.selinux.getCallingContext ipc) name)).map Entry.binder))) ∧
      (world.selinux.canList (world.selinux.getCallingContext ipc) = true → ∀ dumpPriority, ∃ names,
        j.ask ipc world (.listServices dumpPriority) = some (.names (.ok names)) ∧
        names.Pairwise (fun a b => compare a b = .lt) ∧
        ∀ name, name ∈ names ↔
          ∃ entry, entryOf name j.records = some entry ∧ entry.dumpPriority &&& dumpPriority ≠ 0) := by
  refine ⟨fun name request hrequest => lookup_entry hrun ipc world hrequest, fun hlist dumpPriority => ?_⟩
  refine ⟨_, ?_, entries_sorted j.manager.mNameToService _, list_entries hrun dumpPriority⟩
  simp [ask, ServiceManager.onTransact, ServiceManager.listServices, hlist]

end Journal

def World.calm : World where
  selinux := .stub
  linkToDeath _ := true
  getStrongRefCountForNode _ := 1

def root : IPCThreadState := { callingPid := 1, callingUid := 0 }

def addFoo (id : ℕ) : Event := .transact root .calm (.addService (ascii "foo") (some ⟨id, true⟩) false 8)

theorem Journal.run_answers_foo : ∃ j, run Journal.step {} [addFoo 1, addFoo 2] = some j ∧
    j.ask root .calm (.getService (ascii "foo")) = some (.binder (some ⟨2, true⟩)) ∧
    ∃ names, j.ask root .calm (.listServices 8) = some (.names (.ok names)) ∧ ascii "foo" ∈ names := by
  have hrun : run Journal.step {} [addFoo 1, addFoo 2] = some _ := rfl
  refine ⟨_, rfl, ?_, ?_⟩
  · exact (run_answers hrun root .calm).1 _ _ (.inl rfl)
  · obtain ⟨names, hnames, -, hmem⟩ := (run_answers hrun root .calm).2 rfl 8
    exact ⟨names, hnames, (hmem _).mpr ⟨_, rfl, by decide⟩⟩

end BinderDownload.Registry
