import BinderDownload.Lib.Past
import BinderDownload.Registry.Entries

namespace BinderDownload.Registry

open Text Vintf

/-- The callbacks that an accepted registration put on the list and nothing took from it since. -/
def watchersAfter (name : Bytes) (watchers : List IBinder) (r : Record) : List IBinder :=
  match r.event with
  | .transact _ _ (.registerForNotifications n (some cb)) =>
    if n = name ∧ r.answer.isOk then watchers ++ [cb] else watchers
  | .transact _ _ (.unregisterForNotifications n (some cb)) =>
    if n = name ∧ r.answer.isOk then Slot.without (some cb) watchers else watchers
  | .binderDied who => Slot.without (some who) watchers
  | _ => watchers

def watchersOf (name : Bytes) (records : List Record) : List IBinder := records.foldl (watchersAfter name) []

theorem watchersOf_append (name : Bytes) (records : List Record) (r : Record) :
    watchersOf name (records ++ [r]) = watchersAfter name (watchersOf name records) r := by
  rw [watchersOf, List.foldl_append]
  rfl

theorem watchersAfter_at (name : Bytes) (watchers : List IBinder) (r : Record) :
    watchersAfter name watchers (r.at name) = watchersAfter name watchers r := by
  obtain ⟨event, answer, notices⟩ := r
  cases event with
  | transact ipc world request =>
    by_cases hname : request.name? = some name
    · simp [Record.at, watchersAfter, hname]
    · cases request with
      | registerForNotifications n callback | unregisterForNotifications n callback =>
        have hne : n ≠ name := fun h => hname (congrArg some h)
        cases callback with
        | none => rfl
        | some callback => simp [watchersAfter, Record.at, hne]
      | getService n | checkService n | addService n binder allowIsolated dumpPriority | tryUnregisterService n binder
      | isDeclared n | updatableViaApex n | registerClientCallback n service cb | listServices p
      | getDeclaredInstances i | getServiceDebugInfo => rfl
  | binderDied who => rfl
  | timer world => rfl

theorem watchersOf_at (name : Bytes) (records : List Record) :
    watchersOf name (records.map (Record.at name)) = watchersOf name records := by
  rw [watchersOf, List.foldl_map]
  simp only [watchersAfter_at]
  rfl

def Notice.announces (name : Bytes) (cb : IBinder) : Notice → Option IBinder
  | onRegistration callback n binder => if n = name ∧ callback = cb then some binder else none
  | _ => none

def heard (name : Bytes) (cb : IBinder) (records : List Record) : List IBinder :=
  records.flatMap (fun r => r.notices.filterMap (Notice.announces name cb))

theorem heard_append (name : Bytes) (cb : IBinder) (records : List Record) (r : Record) :
    heard name cb (records ++ [r]) = heard name cb records ++ r.notices.filterMap (Notice.announces name cb) := by
  simp [heard]

theorem heard_at (name : Bytes) (cb : IBinder) (records : List Record) :
    heard name cb (records.map (Record.at name)) = heard name cb records := by
  have hnotices (notices : List Notice) :
      (notices.filter (fun notice => notice.name = name)).filterMap (Notice.announces name cb) =
        notices.filterMap (Notice.announces name cb) := by
    rw [List.filterMap_filter]
    apply List.filterMap_congr
    intro notice hnotice
    cases notice with
    | onRegistration callback n binder => by_cases hn : n = name <;> simp [Notice.announces, Notice.name, hn]
    | onClients callback n binder hasClients => simp [Notice.announces]
    | tryStartService n => simp [Notice.announces]
  simp only [heard, List.flatMap_map, Record.at, hnotices]

namespace Slot

variable {name : Bytes} {s after : Slot} {event : Event} {answer : Answer} {notices : List Notice}

theorem Effect.watchers (h : Effect name s event answer notices after) :
    after.watchers = watchersAfter name s.watchers ⟨event, answer, notices⟩ := by
  cases h with
  | @quiet ipc world request answer notices hok hout hnotices =>
    cases request with
    | registerForNotifications n callback | unregisterForNotifications n callback =>
      cases callback <;> simp [watchersAfter, hok]
    | getService n | checkService n | addService n binder allowIsolated dumpPriority | tryUnregisterService n binder
    | isDeclared n | updatableViaApex n | registerClientCallback n service cb | listServices p
    | getDeclaredInstances i | getServiceDebugInfo => rfl
  | found hrequest hs hsees => rcases hrequest with rfl | rfl <;> rfl
  | added hallowed => rfl
  | watched hfind hvalid hlink => simp [watchersAfter]
  | unwatched hmem => simp [watchersAfter]
  | clientsWatched hs hpid hlink => rfl
  | clung hs hclients => rfl
  | unregistered hs hadd hpid hguarantee hcount => rfl
  | died => rfl
  | asleep hcount => rfl
  | timed hs hcount => rfl

theorem Effect.informs (h : Effect name s event answer notices after) {cb : IBinder} {service : Service}
    (hcb : cb ∈ after.watchers) (hafter : after.service = some service) :
    (cb ∈ s.watchers ∧ ∃ before, s.service = some before ∧ before.binder = service.binder) ∨
      .onRegistration cb name service.binder ∈ notices := by
  cases h with
  | quiet hok hout hnotices => exact .inl ⟨hcb, service, hafter, rfl⟩
  | found hrequest hs hsees | clung hs hclients | timed hs hcount =>
    obtain rfl := Option.some.inj hafter
    exact .inl ⟨hcb, _, hs, rfl⟩
  | added hallowed =>
    obtain rfl := Option.some.inj hafter
    exact .inr (List.mem_map_of_mem hcb)
  | @watched ipc world callback hfind hvalid hlink =>
    rcases List.mem_append.mp hcb with hcb | hcb
    · exact .inl ⟨hcb, service, hafter, rfl⟩
    · obtain rfl := List.mem_singleton.mp hcb
      right
      have hs : s.service = some service := hafter
      simp [hs]
  | unwatched hmem => exact .inl ⟨List.mem_of_mem_filter hcb, service, hafter, rfl⟩
  | clientsWatched hs hpid hlink | asleep hcount => exact .inl ⟨hcb, service, hafter, rfl⟩
  | unregistered hs hadd hpid hguarantee hcount => cases hafter
  | died => exact .inl ⟨List.mem_of_mem_filter hcb, service, (Option.filter_eq_some_iff.mp hafter).1, rfl⟩

theorem Effect.announces (h : Effect name s event answer notices after) {cb b : IBinder} {n : Bytes}
    (hmem : .onRegistration cb n b ∈ notices) :
    n = name ∧ cb ∈ after.watchers ∧ after.service.map Service.binder = some b := by
  cases h with
  | quiet hok hout hnotices => cases hnotices _ hmem
  | added hallowed =>
    obtain ⟨callback, hcallback, heq⟩ := List.mem_map.mp hmem
    cases heq
    exact ⟨rfl, hcallback, rfl⟩
  | watched hfind hvalid hlink =>
    obtain ⟨service, hs, heq⟩ := Option.map_eq_some_iff.mp (Option.mem_toList.mp hmem)
    cases heq
    exact ⟨rfl, List.mem_append_right _ (List.mem_singleton_self _), by simp [hs]⟩
  | timed hs hcount =>
    obtain ⟨hasClients, -, hnotice⟩ := List.mem_flatMap.mp hmem
    obtain ⟨callback, -, heq⟩ := List.mem_map.mp hnotice
    cases heq
  | found hrequest hs hsees | unwatched hmem | clientsWatched hs hpid hlink | clung hs hclients
  | unregistered hs hadd hpid hguarantee hcount | died | asleep hcount => cases hmem

end Slot

theorem announces_iff {name : Bytes} {cb b : IBinder} {notices : List Notice} :
    b ∈ notices.filterMap (Notice.announces name cb) ↔ .onRegistration cb name b ∈ notices := by
  rw [List.mem_filterMap]
  constructor
  · rintro ⟨notice, hmem, hannounces⟩
    cases notice with
    | onRegistration callback n binder =>
      simp only [Notice.announces] at hannounces
      split_ifs at hannounces with h
      obtain ⟨rfl, rfl⟩ := h
      rwa [← Option.some.inj hannounces]
    | onClients callback n binder hasClients => cases hannounces
    | tryStartService n => cases hannounces
  · intro hmem
    exact ⟨_, hmem, by simp [Notice.announces]⟩

def Informed (name : Bytes) (s : Slot) (records : List Record) : Prop :=
  ∀ cb ∈ s.watchers, ∀ service, s.service = some service → (heard name cb records).getLast? = some service.binder

theorem Informed.step {name : Bytes} {s after : Slot} {records : List Record} {event : Event} {answer : Answer}
    {notices : List Notice} (h : Informed name s records) (heffect : Slot.Effect name s event answer notices after) :
    Informed name after (records ++ [⟨event, answer, notices⟩]) := by
  intro cb hcb service hservice
  rw [heard_append]
  cases hlast : (notices.filterMap (Notice.announces name cb)).getLast? with
  | some b =>
    have hmem := announces_iff.mp (List.mem_of_getLast? hlast)
    have hb := (heffect.announces hmem).2.2
    rw [hservice, Option.map_some] at hb
    rw [List.getLast?_append, hlast, hb]
    rfl
  | none =>
    have hnil := List.getLast?_eq_none_iff.mp hlast
    rw [hnil, List.append_nil]
    rcases heffect.informs hcb hservice with ⟨hbefore, before, hs, hsame⟩ | htold
    · rw [h cb hbefore before hs, hsame]
    · have hmem := announces_iff.mpr htold
      rw [hnil] at hmem
      cases hmem

namespace Journal

variable {j : Journal} {events : List Event}

theorem run_watchersOf (hrun : run step {} events = some j) (name : Bytes) :
    (j.manager.slot name).watchers = watchersOf name j.records := by
  rw [← watchersOf_at]
  apply run_slot (P := fun s records => s.watchers = watchersOf name records) hrun
  · rfl
  · intro s records event answer notices after hs heffect
    rw [watchersOf_append, ← hs]
    exact heffect.watchers

def Announced (front : List Record) (r : Record) : Prop :=
  ∀ cb name b, .onRegistration cb name b ∈ r.notices →
    cb ∈ watchersOf name (front ++ [r]) ∧ (entryOf name (front ++ [r])).map Entry.binder = some b

theorem run_announced (hrun : run step {} events = some j) : Throughout Announced j.records := by
  have hinv : run step {} events = some j ∧ Throughout Announced j.records := by
    induction events using List.reverseRecOn generalizing j with
    | nil =>
      rw [← Option.some.inj hrun]
      exact ⟨rfl, Throughout.nil⟩
    | append_singleton events event ih =>
      obtain ⟨before, hbefore, htidy, -, -⟩ := run_past events
      obtain ⟨answer, notices, after, hstep, -, -, hall⟩ := step_some htidy event
      have hj : j = ⟨after, before.records ++ [⟨event, answer, notices⟩]⟩ := by
        have hlast := hrun
        rw [run_append hbefore, run, hstep] at hlast
        exact (Option.some.inj hlast).symm
      refine ⟨hrun, ?_⟩
      rw [hj]
      refine throughout_append.mpr ⟨(ih hbefore).2, fun cb name b hmem => ?_⟩
      have hwatchers := run_watchersOf hrun name
      have hentry := run_entry hrun name
      rw [hj] at hwatchers hentry
      obtain ⟨hslot, hat⟩ := hall name
      have hnotices := congrArg Record.notices hat
      have hmem' : .onRegistration cb name b ∈ (Slot.handle name (before.manager.slot name) event).2.1 := by
        simp only at hnotices
        rw [← hnotices]
        exact List.mem_filter.mpr ⟨hmem, by simp [Notice.name]⟩
      obtain ⟨-, hcb, hb⟩ := (Slot.handle_effect name (before.manager.slot name) event).announces hmem'
      rw [← hslot] at hcb hb
      refine ⟨by rw [← hwatchers]; exact hcb, ?_⟩
      rw [← hentry, Option.map_map]
      exact hb
  exact hinv.2

theorem run_watchers (hrun : run step {} events = some j) :
    (∀ name, (j.manager.slot name).watchers = watchersOf name j.records) ∧
      (∀ name, ∀ cb ∈ watchersOf name j.records, ∀ entry, entryOf name j.records = some entry →
        (heard name cb j.records).getLast? = some entry.binder) ∧
      Throughout Announced j.records := by
  refine ⟨run_watchersOf hrun, fun name cb hcb entry hentry => ?_, run_announced hrun⟩
  have hinformed : Informed name (j.manager.slot name) (j.records.map (Record.at name)) := by
    apply run_slot (P := Informed name) hrun
    · intro cb hcb
      cases hcb
    · intro s records event answer notices after hs heffect
      exact hs.step heffect
  rw [← run_watchersOf hrun] at hcb
  rw [← run_entry hrun] at hentry
  obtain ⟨service, hservice, rfl⟩ := Option.map_eq_some_iff.mp hentry
  rw [← heard_at]
  exact hinformed cb hcb service hservice

end Journal

def watchFoo (id : ℕ) : Event := .transact root .calm (.registerForNotifications (ascii "foo") (some ⟨id, true⟩))

theorem Journal.run_watchers_foo : ∃ j, run Journal.step {} [watchFoo 7, addFoo 1, addFoo 2] = some j ∧
    (heard (ascii "foo") ⟨7, true⟩ j.records).getLast? = some ⟨2, true⟩ := by
  refine ⟨_, rfl, ?_⟩
  have hrun : run Journal.step {} [watchFoo 7, addFoo 1, addFoo 2] = some _ := rfl
  exact (run_watchers hrun).2.1 _ _ (by decide) ⟨⟨2, true⟩, false, 8, 1⟩ rfl

end BinderDownload.Registry
