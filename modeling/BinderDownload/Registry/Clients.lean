import BinderDownload.Registry.Entries

namespace BinderDownload.Registry

open Text Vintf

def Notice.report (name : Bytes) (who : IBinder → Bool) : Notice → Option Bool
  | onClients callback n _ hasClients => if n = name ∧ who callback then some hasClients else none
  | _ => none

/-- The reports about a name: the last one to anybody since its service was put there, and those to `cb` since then,
or since it was registered if that was later. `since` is what the last one was when these began. A new service starts
without clients, whatever was reported of the one before it. -/
structure Told where
  last : Bool := false
  since : Bool := false
  heard : List Bool := []

def Told.restart (name : Bytes) (cb : IBinder) (t : Told) (r : Record) : Told :=
  match r.event with
  | .transact _ _ (.addService n (some _) _ _) => if n = name ∧ r.answer.isOk then {} else t
  | .transact _ _ (.registerClientCallback n _ (some c)) =>
    if n = name ∧ c = cb ∧ r.answer.isOk then { t with since := t.last, heard := [] } else t
  | _ => t

def Record.reports (name : Bytes) (who : IBinder → Bool) (r : Record) : List Bool :=
  r.notices.filterMap (Notice.report name who)

def Told.after (name : Bytes) (cb : IBinder) (t : Told) (r : Record) : Told where
  last := ((r.reports name (fun _ => true)).getLast?).getD (t.restart name cb r).last
  since := (t.restart name cb r).since
  heard := (t.restart name cb r).heard ++ r.reports name (fun c => c = cb)

def told (name : Bytes) (cb : IBinder) (records : List Record) : Told := records.foldl (Told.after name cb) {}

theorem told_append (name : Bytes) (cb : IBinder) (records : List Record) (r : Record) :
    told name cb (records ++ [r]) = Told.after name cb (told name cb records) r := by
  rw [told, List.foldl_append]
  rfl

theorem reports_at (name : Bytes) (who : IBinder → Bool) (r : Record) :
    (r.at name).reports name who = r.reports name who := by
  rw [Record.reports, Record.at, List.filterMap_filter]
  apply List.filterMap_congr
  intro notice hnotice
  cases notice with
  | onClients callback n binder hasClients => by_cases hn : n = name <;> simp [Notice.report, Notice.name, hn]
  | onRegistration callback n binder => simp [Notice.report]
  | tryStartService n => simp [Notice.report]

theorem Told.restart_at (name : Bytes) (cb : IBinder) (t : Told) (r : Record) :
    t.restart name cb (r.at name) = t.restart name cb r := by
  obtain ⟨event, answer, notices⟩ := r
  cases event with
  | transact ipc world request =>
    by_cases hname : request.name? = some name
    · simp [Record.at, Told.restart, hname]
    · cases request with
      | addService n binder allowIsolated dumpPriority =>
        have hne : n ≠ name := fun h => hname (congrArg some h)
        cases binder with
        | none => rfl
        | some binder => simp [Told.restart, Record.at, hne]
      | registerClientCallback n service cb =>
        have hne : n ≠ name := fun h => hname (congrArg some h)
        cases cb with
        | none => rfl
        | some cb => simp [Told.restart, Record.at, hne]
      | getService n | checkService n | registerForNotifications n callback | unregisterForNotifications n callback
      | isDeclared n | updatableViaApex n | tryUnregisterService n binder | listServices p
      | getDeclaredInstances i | getServiceDebugInfo => rfl
  | binderDied who => rfl
  | timer world => rfl

theorem Told.after_at (name : Bytes) (cb : IBinder) (t : Told) (r : Record) :
    Told.after name cb t (r.at name) = Told.after name cb t r := by
  simp only [Told.after, Told.restart_at, reports_at]

theorem told_at (name : Bytes) (cb : IBinder) (records : List Record) :
    told name cb (records.map (Record.at name)) = told name cb records := by
  rw [told, List.foldl_map]
  simp only [Told.after_at]
  rfl

namespace Slot

theorem onClients_report (s : Slot) (name : Bytes) (service : Service) (reports : List Bool) (who : IBinder → Bool) :
    (s.onClients name service reports).filterMap (Notice.report name who) =
      reports.flatMap (fun hasClients => List.replicate (s.clientCallbacks.countP who) hasClients) := by
  have hone (hasClients : Bool) (callbacks : List IBinder) :
      (callbacks.map (fun cb => Notice.onClients cb name service.binder hasClients)).filterMap
        (Notice.report name who) =
        List.replicate (callbacks.countP who) hasClients := by
    induction callbacks with
    | nil => rfl
    | cons cb callbacks ih =>
      rw [List.map_cons, List.countP_cons]
      cases hwho : who cb with
      | false => rw [List.filterMap_cons_none (by simp [Notice.report, hwho]), ih]; rfl
      | true => rw [List.filterMap_cons_some (b := hasClients) (by simp [Notice.report, hwho]), ih]; rfl
  unfold onClients
  rw [List.filterMap_flatMap]
  simp only [hone]

theorem reports_chain (service : Service) (hasClients : Bool) :
    (service.hasClients :: reports service hasClients).IsChain (· ≠ ·) ∧
      (service.hasClients :: reports service hasClients).getLast? = some hasClients := by
  unfold reports
  cases service.guaranteeClient <;> cases service.hasClients <;> cases hasClients <;> decide

theorem Effect.unreported {name : Bytes} {s after : Slot} {event : Event} {answer : Answer} {notices : List Notice}
    (h : Effect name s event answer notices after) (htimer : ∀ world, event ≠ .timer world) (who : IBinder → Bool) :
    (Record.mk event answer notices).reports name who = [] := by
  rw [Record.reports, List.filterMap_eq_nil_iff]
  intro notice hnotice
  cases h with
  | quiet hok hout hnotices =>
    rw [hnotices notice hnotice]
    rfl
  | added hallowed =>
    obtain ⟨cb, -, rfl⟩ := List.mem_map.mp hnotice
    rfl
  | watched hfind hvalid hlink =>
    obtain ⟨service, -, rfl⟩ := Option.map_eq_some_iff.mp (Option.mem_toList.mp hnotice)
    rfl
  | timed hs hcount => exact absurd rfl (htimer _)
  | _ => cases hnotice

end Slot

structure Alternates (name : Bytes) (cb : IBinder) (s : Slot) (records : List Record) : Prop where
  last : ∀ service, s.service = some service → (told name cb records).last = service.hasClients
  chain : s.clientCallbacks.count cb = 1 →
    ((told name cb records).since :: (told name cb records).heard).IsChain (· ≠ ·)
  latest : s.clientCallbacks.count cb = 1 → ∀ service, s.service = some service →
    ((told name cb records).since :: (told name cb records).heard).getLast? = some service.hasClients

theorem chain_extend {heard reports : List Bool} {last next : Bool} (hchain : heard.IsChain (· ≠ ·))
    (hlast : heard.getLast? = some last) (hreports : (last :: reports).IsChain (· ≠ ·))
    (hnext : (last :: reports).getLast? = some next) :
    (heard ++ reports).IsChain (· ≠ ·) ∧ (heard ++ reports).getLast? = some next := by
  obtain ⟨front, rfl⟩ := List.getLast?_eq_some_iff.mp hlast
  rw [List.append_assoc, List.singleton_append]
  refine ⟨?_, ?_⟩
  · rw [List.isChain_append]
    rw [List.isChain_append] at hchain
    refine ⟨hchain.1, hreports, ?_⟩
    simpa using hchain.2.2
  · rw [List.getLast?_append, hnext]
    rfl

section Step

variable {name : Bytes} {cb : IBinder} {s after : Slot} {records : List Record} {event : Event} {answer : Answer}
  {notices : List Notice}

theorem Told.after_unreported (t : Told) (heffect : Slot.Effect name s event answer notices after)
    (htimer : ∀ world, event ≠ .timer world) :
    Told.after name cb t ⟨event, answer, notices⟩ = t.restart name cb ⟨event, answer, notices⟩ := by
  simp only [Told.after, heffect.unreported htimer, List.getLast?_nil, Option.getD_none, List.append_nil]

theorem Alternates.same {r : Record} (h : Alternates name cb s records)
    (htold : Told.after name cb (told name cb records) r = told name cb records)
    (hservice : ∀ service, after.service = some service →
      ∃ before, s.service = some before ∧ before.hasClients = service.hasClients)
    (hcount : after.clientCallbacks.count cb = 1 → s.clientCallbacks.count cb = 1) :
    Alternates name cb after (records ++ [r]) := by
  constructor
  · intro service hs
    obtain ⟨before, hbefore, hsame⟩ := hservice service hs
    rw [told_append, htold, h.last before hbefore, hsame]
  · intro hone
    rw [told_append, htold]
    exact h.chain (hcount hone)
  · intro hone service hs
    obtain ⟨before, hbefore, hsame⟩ := hservice service hs
    rw [told_append, htold, h.latest (hcount hone) before hbefore, hsame]

theorem Told.restart_refused (t : Told) {ipc : IPCThreadState} {world : World} {request : Request}
    (hok : answer.isOk = false) : t.restart name cb ⟨.transact ipc world request, answer, notices⟩ = t := by
  cases request with
  | addService n binder allowIsolated dumpPriority => cases binder <;> simp [Told.restart, hok]
  | registerClientCallback n service cb => cases cb <;> simp [Told.restart, hok]
  | getService n | checkService n | registerForNotifications n callback | unregisterForNotifications n callback
  | isDeclared n | updatableViaApex n | tryUnregisterService n binder | listServices p | getDeclaredInstances i
  | getServiceDebugInfo => rfl

theorem Alternates.added {ipc : IPCThreadState} {world : World} {binder : IBinder} {allowIsolated : Bool}
    {dumpPriority : BitVec 32}
    (heffect : Slot.Effect name s (.transact ipc world (.addService name (some binder) allowIsolated dumpPriority))
      (.status (.ok ())) notices after)
    (hnew : ∀ service, after.service = some service → service.hasClients = false) :
    Alternates name cb after (records ++
      [⟨.transact ipc world (.addService name (some binder) allowIsolated dumpPriority), .status (.ok ()),
        notices⟩]) := by
  have htold : told name cb (records ++
      [⟨.transact ipc world (.addService name (some binder) allowIsolated dumpPriority),
      .status (.ok ()), notices⟩]) = {} := by
    rw [told_append, Told.after_unreported _ heffect (by simp)]
    simp [Told.restart]
  constructor
  · intro service hs
    rw [htold, hnew service hs]
  · intro hone
    rw [htold]
    exact List.isChain_singleton _
  · intro hone service hs
    rw [htold, hnew service hs]
    rfl

theorem Alternates.registered {ipc : IPCThreadState} {world : World} {service : Service} {callback : IBinder}
    (h : Alternates name cb s records)
    (heffect : Slot.Effect name s (.transact ipc world
      (.registerClientCallback name (some service.binder) (some callback)))
      (.status (.ok ())) [] { s with clientCallbacks := s.clientCallbacks ++ [callback] }) :
    Alternates name cb { s with clientCallbacks := s.clientCallbacks ++ [callback] } (records ++
      [⟨.transact ipc world (.registerClientCallback name (some service.binder) (some callback)), .status (.ok ()),
        []⟩]) := by
  by_cases heq : callback = cb
  · subst heq
    have htold : told name callback (records ++
        [⟨.transact ipc world (.registerClientCallback name (some service.binder) (some callback)), .status (.ok ()),
          []⟩]) = { told name callback records with since := (told name callback records).last, heard := [] } := by
      rw [told_append, Told.after_unreported _ heffect (by simp)]
      simp [Told.restart]
    constructor
    · intro service hafter
      rw [htold]
      exact h.last service hafter
    · intro hone
      rw [htold]
      exact List.isChain_singleton _
    · intro hone service hafter
      rw [htold, ← h.last service hafter]
      rfl
  · refine h.same ?_ (fun service hs => ⟨service, hs, rfl⟩) ?_
    · rw [Told.after_unreported _ heffect (by simp)]
      simp [Told.restart, heq]
    · intro hone
      rw [List.count_append, List.count_singleton] at hone
      simpa [heq] using hone

theorem count_without {cb : IBinder} {who : Option IBinder} {listeners : List IBinder}
    (h : (Slot.without who listeners).count cb = 1) : listeners.count cb = 1 := by
  have hmem : cb ∈ Slot.without who listeners := List.count_pos_iff.mp (by omega)
  rw [Slot.without, List.mem_filter] at hmem
  rw [← h, Slot.without, List.count_filter (p := fun listener => decide (some listener ≠ who)) hmem.2]

theorem getLast?_repeat {n : ℕ} (hn : 0 < n) (reports : List Bool) :
    (reports.flatMap (fun report => List.replicate n report)).getLast? = reports.getLast? := by
  induction reports using List.reverseRecOn with
  | nil => rfl
  | append_singleton reports report ih =>
    have hlast : (List.replicate n report).getLast? = some report := by
      rw [List.getLast?_replicate, if_neg (by omega)]
    simp [List.flatMap_append, List.getLast?_append, hlast]

theorem Alternates.timed {world : World} {service : Service} (h : Alternates name cb s records)
    (hs : s.service = some service) (hcount : s.count world ≠ -1) :
    Alternates name cb
      { s with service := some { service with hasClients := s.count world > 1, guaranteeClient := false } }
      (records ++ [⟨.timer world, .silent, s.onClients name service (Slot.reports service (s.count world > 1))⟩]) := by
  obtain ⟨hreports, hnext⟩ := Slot.reports_chain service (s.count world > 1)
  have hsome : 0 < s.clientCallbacks.countP (fun _ => true) := by
    obtain ⟨-, -, hne, -⟩ := Slot.count_some hcount
    rw [List.countP_true]
    exact List.length_pos_of_ne_nil hne
  generalize hr : Record.mk (.timer world) .silent
    (s.onClients name service (Slot.reports service (s.count world > 1))) = r
  have hrestart (t : Told) : t.restart name cb r = t := by
    rw [← hr]
    rfl
  have hheard (hone : s.clientCallbacks.count cb = 1) :
      r.reports name (fun c => c = cb) = Slot.reports service (s.count world > 1) := by
    have hcountP : s.clientCallbacks.countP (fun c => c = cb) = 1 := by
      rw [← hone, List.count]
      rfl
    rw [← hr, Record.reports, Slot.onClients_report, hcountP]
    simp
  have hlast : (r.reports name (fun _ => true)).getLast? = (Slot.reports service (s.count world > 1)).getLast? := by
    rw [← hr, Record.reports, Slot.onClients_report, getLast?_repeat hsome]
  constructor
  · intro next hafter
    obtain rfl := Option.some.inj hafter
    rw [told_append]
    simp only [Told.after, hrestart, hlast]
    rw [List.getLast?_cons, Option.some.injEq] at hnext
    rw [h.last service hs]
    exact hnext
  · intro hone
    rw [told_append]
    simp only [Told.after, hrestart, hheard hone]
    exact (chain_extend (h.chain hone) (h.latest hone service hs) hreports hnext).1
  · intro hone next hafter
    obtain rfl := Option.some.inj hafter
    rw [told_append]
    simp only [Told.after, hrestart, hheard hone]
    exact (chain_extend (h.chain hone) (h.latest hone service hs) hreports hnext).2

theorem Alternates.step (h : Alternates name cb s records) (heffect : Slot.Effect name s event answer notices after) :
    Alternates name cb after (records ++ [⟨event, answer, notices⟩]) := by
  have hquiet (htimer : ∀ world, event ≠ .timer world)
      (hrestart : (told name cb records).restart name cb ⟨event, answer, notices⟩ = told name cb records) :
      Told.after name cb (told name cb records) ⟨event, answer, notices⟩ = told name cb records := by
    rw [Told.after_unreported _ heffect htimer, hrestart]
  cases heffect with
  | quiet hok hout hnotices =>
    exact h.same (hquiet (by simp) (Told.restart_refused _ hok)) (fun service hs => ⟨service, hs, rfl⟩) id
  | found hrequest hs hsees =>
    refine h.same (hquiet (by simp) (by rcases hrequest with rfl | rfl <;> rfl)) (fun service hafter => ?_) id
    obtain rfl := Option.some.inj hafter
    exact ⟨_, hs, rfl⟩
  | added hallowed =>
    refine Alternates.added (.added hallowed) (fun service hafter => ?_)
    obtain rfl := Option.some.inj hafter
    rfl
  | watched hfind hvalid hlink | unwatched hmem =>
    exact h.same (hquiet (by simp) rfl) (fun service hs => ⟨service, hs, rfl⟩) id
  | clientsWatched hs hpid hlink => exact h.registered (.clientsWatched hs hpid hlink)
  | clung hs hclients =>
    refine h.same (hquiet (by simp) rfl) (fun service hafter => ?_) id
    obtain rfl := Option.some.inj hafter
    exact ⟨_, hs, rfl⟩
  | unregistered hs hadd hpid hguarantee hcount =>
    exact h.same (hquiet (by simp) rfl) (fun service hafter => by cases hafter) id
  | died =>
    refine h.same (hquiet (by simp) rfl) (fun service hafter => ?_) count_without
    exact ⟨service, (Option.filter_eq_some_iff.mp hafter).1, rfl⟩
  | asleep hcount =>
    exact h.same (by simp [Told.after, Told.restart, Record.reports]) (fun service hs => ⟨service, hs, rfl⟩) id
  | timed hs hcount => exact h.timed hs hcount

end Step

namespace Journal

variable {j k : Journal} {events : List Event}

theorem run_alternates (hrun : run step {} events = some j) (name : Bytes) (cb : IBinder) :
    Alternates name cb (j.manager.slot name) (j.records.map (Record.at name)) := by
  apply run_slot (P := Alternates name cb) hrun
  · constructor
    · intro service hs
      cases hs
    · intro hone
      cases hone
    · intro hone
      cases hone
  · intro s records event answer notices after hs heffect
    exact hs.step heffect

theorem run_told (hrun : run step {} events = some j) {name : Bytes} {cb : IBinder}
    (hone : (j.manager.slot name).clientCallbacks.count cb = 1) :
    ((told name cb j.records).since :: (told name cb j.records).heard).IsChain (· ≠ ·) ∧
      ∀ world, (j.manager.slot name).count world ≠ -1 → ∃ k, j.step (.timer world) = some k ∧
        ((told name cb k.records).since :: (told name cb k.records).heard).IsChain (· ≠ ·) ∧
        ((told name cb k.records).since :: (told name cb k.records).heard).getLast? =
          some (decide ((j.manager.slot name).count world > 1)) := by
  refine ⟨?_, fun world hcount => ?_⟩
  · rw [← told_at]
    exact (run_alternates hrun name cb).chain hone
  · obtain ⟨k, hk, -, -, hpast⟩ := run_past (events ++ [.timer world])
    have hstep : j.step (.timer world) = some k := by
      rw [run_append hrun, run] at hk
      obtain ⟨t, ht, hrest⟩ := Option.bind_eq_some_iff.mp hk
      rw [ht, ← hrest]
      rfl
    obtain ⟨answer, notices, after, hnext, -, -, hall⟩ := step_some (run_tidy hrun) (.timer world)
    rw [hstep, Option.some.injEq] at hnext
    have hslot : k.manager.slot name = ((j.manager.slot name).timer world name).2 := by
      rw [hnext]
      exact (hall name).1
    obtain ⟨service, hs, -, -⟩ := Slot.count_some hcount
    have htimer : ∃ next, ((j.manager.slot name).timer world name).2 =
        { j.manager.slot name with service := some next } ∧
        next.hasClients = decide ((j.manager.slot name).count world > 1) := by
      simp only [Slot.timer, hs, hcount, if_false]
      exact ⟨_, rfl, rfl⟩
    obtain ⟨next, hafter, hclients⟩ := htimer
    rw [hafter] at hslot
    have hone' : (k.manager.slot name).clientCallbacks.count cb = 1 := by
      rw [hslot]
      exact hone
    have halternates := run_alternates hk name cb
    refine ⟨k, hstep, ?_, ?_⟩
    · rw [← told_at]
      exact halternates.chain hone'
    · rw [← told_at, ← hclients]
      exact halternates.latest hone' next (by rw [hslot])

end Journal

def watchClientsFoo (id : ℕ) : Event :=
  .transact root .calm (.registerClientCallback (ascii "foo") (some ⟨1, true⟩) (some ⟨id, true⟩))

def World.busy : World := { World.calm with getStrongRefCountForNode := fun _ => 3 }

theorem Journal.run_told_foo :
    ∃ j, run Journal.step {} [addFoo 1, watchClientsFoo 7, .timer .busy, .timer .calm] = some j ∧
      (told (ascii "foo") ⟨7, true⟩ j.records).heard = [true, false] ∧
      ((told (ascii "foo") ⟨7, true⟩ j.records).since :: (told (ascii "foo") ⟨7, true⟩ j.records).heard).IsChain
        (· ≠ ·) := by
  refine ⟨_, rfl, by decide, ?_⟩
  have hrun : run Journal.step {} [addFoo 1, watchClientsFoo 7, .timer .busy, .timer .calm] = some _ := rfl
  exact (run_told hrun (by decide)).1

example : (run Journal.step {} [addFoo 1, watchClientsFoo 7, .timer .busy, addFoo 2, .timer .busy]).map
    (fun j => j.records.flatMap (Record.reports (ascii "foo") (fun cb => cb = ⟨7, true⟩))) = some [true, true] := by
  decide

end BinderDownload.Registry
