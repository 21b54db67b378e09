import BinderDownload.Lib.Run
import BinderDownload.Registry.Effect

namespace BinderDownload.Registry

open Text Vintf

structure Record where
  event : Event
  answer : Answer
  notices : List Notice

structure Journal where
  manager : ServiceManager := {}
  records : List Record := []

def Journal.step (j : Journal) (event : Event) : Option Journal := do
  let (answer, notices, manager) ← j.manager.handle event
  return ⟨manager, j.records ++ [⟨event, answer, notices⟩]⟩

def Record.at (name : Bytes) (r : Record) : Record where
  event := r.event
  answer := match r.event with
    | .transact _ _ request => if request.name? = some name then r.answer else .silent
    | _ => .silent
  notices := r.notices.filter (fun notice => notice.name = name)

namespace Slot

structure Past where
  slot : Slot := {}
  records : List Record := []

def Past.step (name : Bytes) (past : Past) (event : Event) : Past :=
  let (answer, notices, slot) := Slot.handle name past.slot event
  ⟨slot, past.records ++ [⟨event, answer, notices⟩]⟩

def past (name : Bytes) (events : List Event) : Past := events.foldl (Past.step name) {}

theorem past_append (name : Bytes) (events : List Event) (event : Event) :
    past name (events ++ [event]) = Past.step name (past name events) event := by
  rw [past, List.foldl_append]
  rfl

theorem handle_other {name : Bytes} {event : Event} (s : Slot) (h : event.concerns name = false) :
    handle name s event = (.silent, [], s) := by
  cases event with
  | transact ipc world request =>
    have hne : request.name? ≠ some name := by simpa [Event.concerns] using h
    simp [handle, hne]
  | binderDied who => cases h
  | timer world => cases h

theorem past_induction {name : Bytes} {P : Slot → List Record → Prop} (hstart : P {} [])
    (hstep : ∀ s records event answer notices after, P s records → Effect name s event answer notices after →
      P after (records ++ [⟨event, answer, notices⟩]))
    (events : List Event) : P (past name events).slot (past name events).records := by
  induction events using List.reverseRecOn with
  | nil => exact hstart
  | append_singleton events event ih =>
    rw [past_append]
    exact hstep _ _ event _ _ _ ih (handle_effect name _ event)

theorem past_filter (name : Bytes) (events : List Event) :
    (past name events).slot = (past name (events.filter (Event.concerns name))).slot ∧
      (past name events).records.filter (fun r => r.event.concerns name) =
        (past name (events.filter (Event.concerns name))).records := by
  induction events using List.reverseRecOn with
  | nil => exact ⟨rfl, rfl⟩
  | append_singleton events event ih =>
    obtain ⟨hslot, hrecords⟩ := ih
    rw [past_append, List.filter_append]
    cases hconcerns : event.concerns name with
    | true =>
      rw [List.filter_cons_of_pos hconcerns, List.filter_nil, past_append]
      refine ⟨by simp only [Past.step, hslot], ?_⟩
      simp [Past.step, List.filter_append, hrecords, hconcerns, hslot]
    | false =>
      rw [List.filter_cons_of_neg (by simp [hconcerns]), List.filter_nil, List.append_nil]
      have hkeep := handle_other (past name events).slot hconcerns
      have hsame : (Past.step name (past name events) event).slot = (past name events).slot := by
        simp only [Past.step, hkeep]
      refine ⟨hsame.trans hslot, ?_⟩
      simp [Past.step, List.filter_append, hrecords, hconcerns]

end Slot

namespace Journal

variable {j k : Journal} {event : Event} {events : List Event}

theorem step_some (h : j.manager.Tidy) (event : Event) : ∃ answer notices after,
    j.step event = some ⟨after, j.records ++ [⟨event, answer, notices⟩]⟩ ∧ after.Tidy ∧
      j.manager.handle event = some (answer, notices, after) ∧
      ∀ name, after.slot name = (Slot.handle name (j.manager.slot name) event).2.2 ∧
        Record.at name ⟨event, answer, notices⟩ =
          ⟨event, (Slot.handle name (j.manager.slot name) event).1,
            (Slot.handle name (j.manager.slot name) event).2.1⟩ := by
  obtain ⟨answer, notices, after, hhandle, htidy, hall⟩ := ServiceManager.handle_slots h event
  refine ⟨answer, notices, after, by simp [step, hhandle], htidy, hhandle, fun name => ⟨(hall name).1, ?_⟩⟩
  have hanswer : (Record.at name ⟨event, answer, notices⟩).answer =
      (Slot.handle name (j.manager.slot name) event).1 := by
    cases event with
    | transact ipc world request =>
      by_cases hname : request.name? = some name
      · simp only [Record.at, hname, if_true]
        exact ServiceManager.handle_answer h hname hhandle
      · simp [Record.at, Slot.handle, hname]
    | binderDied who => rfl
    | timer world => rfl
  rw [← hanswer, ← (hall name).2]
  rfl

theorem empty_tidy : ({} : ServiceManager).Tidy := ⟨by simp, by simp⟩

theorem empty_slot (name : Bytes) : ({} : ServiceManager).slot name = {} := by
  simp [ServiceManager.slot]

theorem run_past (events : List Event) : ∃ j, run step {} events = some j ∧ j.manager.Tidy ∧
    j.records.map Record.event = events ∧
    ∀ name, j.manager.slot name = (Slot.past name events).slot ∧
      j.records.map (Record.at name) = (Slot.past name events).records := by
  induction events using List.reverseRecOn with
  | nil => exact ⟨{}, rfl, empty_tidy, rfl, fun name => ⟨empty_slot name, rfl⟩⟩
  | append_singleton events event ih =>
    obtain ⟨j, hrun, htidy, hevents, hpast⟩ := ih
    obtain ⟨answer, notices, after, hstep, hafter, -, hall⟩ := step_some htidy event
    refine ⟨⟨after, j.records ++ [⟨event, answer, notices⟩]⟩, ?_, hafter, by simp [hevents], fun name => ?_⟩
    · rw [run_append hrun, run, hstep]
      rfl
    · obtain ⟨hslot, hrecords⟩ := hpast name
      obtain ⟨hnext, hrecord⟩ := hall name
      rw [Slot.past_append]
      simp only [Slot.Past.step, List.map_append, hrecords, List.map_cons, List.map_nil, hrecord, hnext, hslot]
      exact ⟨trivial, trivial⟩

theorem run_slot {name : Bytes} {P : Slot → List Record → Prop} (hrun : run step {} events = some j) (hstart : P {} [])
    (hstep : ∀ s records event answer notices after, P s records →
      Slot.Effect name s event answer notices after → P after (records ++ [⟨event, answer, notices⟩])) :
    P (j.manager.slot name) (j.records.map (Record.at name)) := by
  obtain ⟨k, hk, -, -, hpast⟩ := run_past events
  rw [hrun, Option.some.injEq] at hk
  subst hk
  rw [(hpast name).1, (hpast name).2]
  exact Slot.past_induction hstart hstep events

theorem run_tidy (hrun : run step {} events = some j) : j.manager.Tidy := by
  obtain ⟨k, hk, htidy, -, -⟩ := run_past events
  rw [hrun, Option.some.injEq] at hk
  rw [hk]
  exact htidy

theorem run_independent (events : List Event) : ∃ j, run step {} events = some j ∧ j.manager.Tidy ∧
    ∀ name, ∃ k, run step {} (events.filter (Event.concerns name)) = some k ∧
      k.manager.slot name = j.manager.slot name ∧
      k.records.map (Record.at name) =
        (j.records.filter (fun r => r.event.concerns name)).map (Record.at name) := by
  obtain ⟨j, hrun, htidy, -, hpast⟩ := run_past events
  refine ⟨j, hrun, htidy, fun name => ?_⟩
  obtain ⟨k, hk, -, -, hown⟩ := run_past (events.filter (Event.concerns name))
  obtain ⟨hslot, hrecords⟩ := Slot.past_filter name events
  refine ⟨k, hk, ?_, ?_⟩
  · rw [(hown name).1, ← hslot, (hpast name).1]
  · rw [(hown name).2, ← hrecords, ← (hpast name).2, List.filter_map]
    rfl

end Journal

end BinderDownload.Registry
