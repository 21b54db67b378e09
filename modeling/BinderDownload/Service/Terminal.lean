import BinderDownload.Service.Lifecycle

namespace BinderDownload.DownloadService.Tasks

open Text HttpService

def Task.drained (d : Task) (event : Event) : Bool :=
  match d.worker, event with
  | .callback _, .go => d.job.callback = true → d.relay = .idle ∧ d.inFlight = []
  | _, _ => true

def Drained (s : Service) : Action → Prop
  | .task id event => ∀ d, s.mTasks id = some d → d.drained event = true
  | _ => True

/-- Nothing follows a terminal call. -/
def TerminalLast (calls : List ClientCall) : Prop :=
  ∀ before c after, calls = before ++ c :: after → (reports c).isSome = true → after = []

theorem TerminalLast.of_none {calls : List ClientCall} (h : calls.filterMap reports = []) : TerminalLast calls := by
  rintro before c after rfl hc
  have hnone : reports c = none := List.filterMap_eq_nil_iff.mp h c (by simp)
  rw [hnone] at hc
  cases hc

theorem TerminalLast.snoc {calls : List ClientCall} (h : calls.filterMap reports = []) (c : ClientCall) :
    TerminalLast (calls ++ [c]) := by
  intro before c' after heq hc'
  rcases List.eq_nil_or_concat' after with rfl | ⟨after', x, rfl⟩
  · rfl
  · -- the terminal call would be one of `calls`
    have hcalls : calls = before ++ c' :: after' := by
      rw [← List.cons_append, ← List.append_assoc] at heq
      exact (List.append_inj' heq rfl).1
    have hnone : reports c' = none := List.filterMap_eq_nil_iff.mp h c' (by simp [hcalls])
    rw [hnone] at hc'
    cases hc'

variable {d d' : Task} {event : Event}

theorem Agrees.silent (h : Agrees d) (hw : ∀ e, d.worker = .done e → d.job.callback = false) :
    d.calls.filterMap reports = [] := by
  rw [h.calls]
  split_ifs with hjob
  · cases hd : d.worker with
    | done e =>
      rw [hw e hd] at hjob
      cases hjob
    | _ => rfl
  · rfl

structure Closed (d : Task) : Prop where
  agrees : Agrees d
  last : TerminalLast d.calls
  quiet : ∀ e, d.worker = .done e → d.job.callback = true → ¬d.Busy

theorem Closed.fresh (job : Job) : Closed { job } := by
  refine ⟨.fresh job, .of_none rfl, ?_⟩
  intro e hw
  cases hw

theorem Closed.silent (h : Closed d) (hbusy : d.Busy) : d.calls.filterMap reports = [] := by
  apply h.agrees.silent
  intro e hw
  cases hjob : d.job.callback with
  | false => rfl
  | true => exact absurd hbusy (h.quiet e hw hjob)

theorem Closed.works (h : Closed d) (hstep : Works d event d') (hdrained : d.drained event = true) : Closed d' := by
  have hagrees := h.agrees.works hstep
  cases hstep with
  | start event hw => exact ⟨hagrees, h.last, fun e hw => by cases hw⟩
  | work event at' counters httpRequestId resumeFrom hfrom hto =>
    refine ⟨hagrees, h.last, ?_⟩
    rintro e rfl
    cases hto
  | message event e hw => exact ⟨hagrees, h.last, fun e hw => by cases hw⟩
  | store event e hw => exact ⟨hagrees, h.last, fun e hw => by cases hw⟩
  | callback e hw =>
    simp only [Task.drained, hw, decide_eq_true_eq] at hdrained
    refine ⟨hagrees, ?_, fun e' hw' hjob => ?_⟩
    · have hsilent : d.calls.filterMap reports = [] := h.agrees.silent (by
        intro e' he'
        rw [hw] at he'
        cases he')
      show TerminalLast (d.calls ++ e.callback d.job)
      unfold Ending.callback
      split_ifs
      · exact .snoc hsilent _
      · rw [List.append_nil]
        exact h.last
    · obtain ⟨hidle, hempty⟩ := hdrained hjob
      rintro (hrelay | hflight)
      · exact hrelay hidle
      · exact hflight hempty

theorem Closed.relays (h : Closed d) (hstep : Relays d d') : Closed d' := by
  have hagrees := h.agrees.relays hstep
  cases hstep with
  | quiet at' counters inFlight hbusy =>
    exact ⟨hagrees, h.last, fun e hw hjob => absurd hbusy (h.quiet e hw hjob)⟩
  | call c hbusy hc =>
    exact ⟨hagrees, .snoc (h.silent hbusy) c, fun e hw hjob => absurd hbusy (h.quiet e hw hjob)⟩

theorem Closed.moves (h : Closed d) (hstep : Moves d event d') (hdrained : d.drained event = true) : Closed d' := by
  cases hstep with
  | work hworks => exact h.works hworks hdrained
  | relay sinceMs hrelays => exact h.relays hrelays
  | send message hw =>
    refine ⟨⟨h.agrees.state, h.agrees.message, h.agrees.calls⟩, h.last, ?_⟩
    intro e hdone
    rw [show _ = d.worker from rfl, hw] at hdone
    cases hdone

theorem closed_step {targets : ℕ → ℤ} {s t : Service} {a : Action} (h : ∀ id d, s.mTasks id = some d → Closed d)
    (hdrained : Drained s a) (hstep : step targets s a = some t) : ∀ id d, t.mTasks id = some d → Closed d := by
  intro id d' hd'
  rcases (step_turns hstep).origin hd' with ⟨job, rfl⟩ | ⟨d, hd, hfollows⟩
  · exact .fresh job
  · have hclosed := h id d hd
    cases hfollows with
    | same => exact hclosed
    | flag => exact ⟨⟨hclosed.agrees.state, hclosed.agrees.message, hclosed.agrees.calls⟩, hclosed.last, hclosed.quiet⟩
    | move event ha hmove =>
      subst ha
      exact hclosed.moves hmove (hdrained d hd)

theorem terminal_last (targets : ℕ → ℤ) (as : List Action) (s : Service)
    (hs : run (step targets) initial as = some s) (hdrained : Obeys (step targets) Drained initial as) :
    ∀ id d, s.mTasks id = some d → ∀ before c after, d.calls = before ++ c :: after →
      (reports c).isSome = true → after = [] := by
  intro id d hd
  have hinitial : ∀ id d, initial.mTasks id = some d → Closed d := fun id d hd => by cases hd
  exact (run_invariant closed_step hinitial hs hdrained id d hd).last

theorem obeys_task {targets : ℕ → ℤ} {s : Service} {id : ℤ} {events : List Event} (hd : s.mTasks id = some d)
    (h : Obeys Task.step (fun d event => d.drained event = true) d events) :
    Obeys (step targets) Drained s (events.map (Action.task id)) := by
  induction events generalizing s d with
  | nil => trivial
  | cons event events ih =>
    refine ⟨?_, ?_⟩
    · intro d₀ hd₀
      rw [hd] at hd₀
      cases hd₀
      exact h.1
    · intro t ht
      obtain ⟨d₀, hd₀, ht⟩ := Option.bind_eq_some_iff.mp ht
      obtain ⟨d₁, hd₁, rfl⟩ := Option.map_eq_some_iff.mp ht
      rw [hd] at hd₀
      cases hd₀
      exact ih (Function.update_self _ _ _) (h.2 d₁ hd₁)

def messages : List Progress := [.responseStart 200 0 2 (ascii "text/plain"), .bytesReceived 2 2]

theorem terminal_last_drained :
    let job : Job := ⟨1, ascii "http://h/f", ascii "f", true, by decide, by decide, by decide⟩
    let events := opening ++ messages.map Event.send ++ List.replicate 11 (.relay 300) ++ closing
    let as := .enqueue job.url job.destPath true :: events.map (Action.task 1)
    ∃ s d, run (step (fun _ => 1)) initial as = some s ∧ s.mTasks 1 = some d ∧
      d.calls = [.started job.url 2 0, .progress 2 2 (some 100) 6, .completed job.destPath 2 5] ∧
      ∀ before c after, d.calls = before ++ c :: after → (reports c).isSome = true → after = [] := by
  intro job events as
  let d : Task :=
    { job, state := .completed, message := ascii "completed", counters := ⟨2, 2, 0, 2⟩, httpRequestId := 1,
      worker := .done (.completed 2 5),
      calls := [.started job.url 2 0, .progress 2 2 (some 100) 6, .completed job.destPath 2 5] }
  have hd : run Task.step { job } events = some d := by decide +kernel
  have hs : run (step (fun _ => 1)) initial as = some (alone d) := run_alone rfl hd
  have hobeys : Obeys Task.step (fun d event => d.drained event = true) { job } events := by decide +kernel
  refine ⟨_, d, hs, alone_task d, rfl, terminal_last _ as _ hs ?_ 1 d (alone_task d)⟩
  refine ⟨trivial, fun t ht => ?_⟩
  rw [step_alone rfl] at ht
  cases ht
  exact obeys_task (alone_task _) hobeys

theorem terminal_overtaken :
    let job : Job := ⟨1, ascii "http://h/f", ascii "f", true, by decide, by decide, by decide⟩
    let events := opening ++ messages.map Event.send ++ closing ++ List.replicate 11 (.relay 300)
    let as := .enqueue job.url job.destPath true :: events.map (Action.task 1)
    ∃ s d, run (step (fun _ => 1)) initial as = some s ∧ s.mTasks 1 = some d ∧
      d.calls = [.completed job.destPath 2 5, .started job.url 2 0, .progress 2 2 (some 100) 6] := by
  intro job events as
  let d : Task :=
    { job, state := .completed, message := ascii "completed", counters := ⟨2, 2, 0, 2⟩, httpRequestId := 1,
      worker := .done (.completed 2 5),
      calls := [.completed job.destPath 2 5, .started job.url 2 0, .progress 2 2 (some 100) 6] }
  have hd : run Task.step { job } events = some d := by decide +kernel
  exact ⟨alone d, d, run_alone rfl hd, alone_task d, rfl⟩

end BinderDownload.DownloadService.Tasks
