import BinderDownload.Service.Tasks

namespace BinderDownload.DownloadService.Tasks

open Text Files HttpService

/-- How far a worker has come: `noted` has stored its message, `stored` also its state, and `told` has made
its last call on the client. -/
inductive Phase
  | pending | running
  | noted (e : Ending)
  | stored (e : Ending)
  | told (e : Ending)

def WorkerAt.phase : WorkerAt → Phase
  | .start => .pending
  | .store e => .noted e
  | .callback e => .stored e
  | .done e => .told e
  | _ => .running

def WorkerAt.finishing : WorkerAt → Option Ending
  | .message e | .store e | .callback e | .done e => some e
  | _ => none

namespace Phase

def state : Phase → State
  | .pending => .pending
  | .running | .noted _ => .running
  | .stored e | .told e => e.state

def message : Phase → Bytes
  | .pending | .running => []
  | .noted e | .stored e | .told e => e.message

def ends : Phase → List Ending
  | .told e => [e]
  | _ => []

end Phase

def reports : ClientCall → Option State
  | .started _ _ _ | .progress _ _ _ _ => none
  | .completed _ _ _ => some .completed
  | .failed _ _ => some .failed
  | .canceled _ => some .canceled

@[simp] theorem reports_call (job : Job) (e : Ending) : reports (e.call job) = some e.state := by
  cases e <;> rfl

theorem Ending.state_terminal (e : Ending) : isTerminal e.state = true := by
  cases e <;> rfl

inductive Works (d : Task) : Event → Task → Prop
  | start (event : Event) (h : d.worker = .start) : Works d event { d.goto .parents with state := .running }
  | work (event : Event) (at' : WorkerAt) (counters : Counters) (httpRequestId : ℤ) (resumeFrom : ℕ)
      (hfrom : d.worker.phase = .running) (hto : at'.phase = .running) :
      Works d event { d with worker := at', counters, httpRequestId, resumeFrom }
  | message (event : Event) (e : Ending) (h : d.worker = .message e) :
      Works d event { d.goto (.store e) with message := e.message }
  | store (event : Event) (e : Ending) (h : d.worker = .store e) :
      Works d event { d.goto (.callback e) with state := e.state }
  | callback (e : Ending) (h : d.worker = .callback e) : Works d .go ((d.tell (e.callback d.job)).goto (.done e))

variable {d d' : Task} {event : Event}

theorem judge_running (d : Task) (reply : Reply) : (d.judge reply).phase = .running := by
  unfold Task.judge
  split
  · rfl
  · split_ifs <;> rfl
  · split_ifs <;> rfl

theorem workerStep_works (h : d.workerStep event = some d') : Works d event d' := by
  unfold Task.workerStep at h
  split at h
  all_goals cases h
  all_goals
    first
    | exact .start _ ‹_›
    | exact .message _ _ ‹_›
    | exact .store _ _ ‹_›
    | exact .callback _ ‹_›
    | refine .work _ _ _ _ _ (by rw [‹d.worker = _›]; rfl) ?_
  all_goals first | rfl | exact judge_running _ _ | split_ifs <;> rfl

def Task.Busy (d : Task) : Prop := d.relay ≠ .idle ∨ d.inFlight ≠ []

inductive Relays (d : Task) : Task → Prop
  | quiet (at' : RelayAt) (counters : Counters) (inFlight : List Progress) (h : d.Busy) :
      Relays d { d with relay := at', counters, inFlight }
  | call (c : ClientCall) (h : d.Busy) (hc : reports c = none) : Relays d ((d.tell [c]).relayTo .idle)

theorem receive_relays (h : d.receive = some d') : Relays d d' := by
  unfold Task.receive at h
  split at h
  · cases h
  · cases h
    exact .quiet _ _ _ (.inr (by simp_all))
  · cases h
    exact .quiet _ _ _ (.inr (by simp_all))

theorem relayStep_relays {sinceMs : ℤ} (h : d.relayStep sinceMs = some d') : Relays d d' := by
  by_cases hidle : d.relay = .idle
  · rw [Task.relayStep, hidle] at h
    exact receive_relays h
  · have hbusy : d.Busy := .inl hidle
    unfold Task.relayStep at h
    split at h
    case h_1 => exact absurd ‹_› hidle
    case h_8 =>
      split_ifs at h
      all_goals cases h
      all_goals exact .quiet _ _ _ hbusy
    all_goals cases h
    all_goals
      first
      | exact .call _ hbusy rfl
      | exact .quiet _ _ _ hbusy
      | split_ifs <;> exact .quiet _ _ _ hbusy

inductive Moves (d : Task) : Event → Task → Prop
  | work {event : Event} {d' : Task} (h : Works d event d') : Moves d event d'
  | relay (sinceMs : ℤ) {d' : Task} (h : Relays d d') : Moves d (.relay sinceMs) d'
  | send (message : Progress) (h : d.worker = .reply) :
      Moves d (.send message) { d with inFlight := d.inFlight ++ [message] }

theorem step_moves (h : d.step event = some d') : Moves d event d' := by
  cases event with
  | send message =>
    simp only [Task.step] at h
    split_ifs at h with hw
    cases h
    exact .send message hw
  | relay sinceMs => exact .relay sinceMs (relayStep_relays h)
  | _ => exact .work (workerStep_works h)

/-- What is stored and what was said agree with how far the worker has come. -/
structure Agrees (d : Task) : Prop where
  state : d.state = d.worker.phase.state
  message : d.message = d.worker.phase.message
  calls : d.calls.filterMap reports = if d.job.callback then d.worker.phase.ends.map Ending.state else []

theorem Agrees.fresh (job : Job) : Agrees { job } := by
  refine ⟨rfl, rfl, ?_⟩
  split_ifs <;> rfl

theorem Agrees.works (h : Agrees d) (hstep : Works d event d') : Agrees d' := by
  obtain ⟨hstate, hmessage, hcalls⟩ := h
  cases hstep with
  | start event hw =>
    rw [hw] at hmessage hcalls
    exact ⟨rfl, hmessage, hcalls⟩
  | work event at' counters httpRequestId resumeFrom hfrom hto =>
    rw [hfrom, ← hto] at hstate hmessage hcalls
    exact ⟨hstate, hmessage, hcalls⟩
  | message event e hw =>
    rw [hw] at hstate hcalls
    exact ⟨hstate, rfl, hcalls⟩
  | store event e hw =>
    rw [hw] at hmessage hcalls
    exact ⟨rfl, hmessage, hcalls⟩
  | callback e hw =>
    rw [hw] at hstate hmessage hcalls
    refine ⟨hstate, hmessage, ?_⟩
    show (d.calls ++ e.callback d.job).filterMap reports = if d.job.callback then [e.state] else []
    rw [List.filterMap_append, hcalls, Ending.callback]
    by_cases hjob : d.job.callback = true
    · simp [hjob, WorkerAt.phase, Phase.ends]
    · simp [hjob]

theorem Agrees.relays (h : Agrees d) (hstep : Relays d d') : Agrees d' := by
  obtain ⟨hstate, hmessage, hcalls⟩ := h
  cases hstep with
  | quiet at' counters inFlight => exact ⟨hstate, hmessage, hcalls⟩
  | call c hbusy hc =>
    refine ⟨hstate, hmessage, ?_⟩
    have hsame : (d.calls ++ [c]).filterMap reports = d.calls.filterMap reports := by simp [hc]
    exact hsame.trans hcalls

theorem Agrees.moves (h : Agrees d) (hstep : Moves d event d') : Agrees d' := by
  cases hstep with
  | work hworks => exact h.works hworks
  | relay sinceMs hrelays => exact h.relays hrelays
  | send message hw => exact ⟨h.state, h.message, h.calls⟩

def Advances (old new : State) : Prop :=
  new = old ∨ old = .pending ∧ new = .running ∨ old = .running ∧ isTerminal new = true

theorem Moves.advances (h : Agrees d) (hstep : Moves d event d') : Advances d.state d'.state := by
  cases hstep with
  | work hworks =>
    cases hworks with
    | start event hw => exact .inr (.inl ⟨by rw [h.state, hw]; rfl, rfl⟩)
    | work => exact .inl rfl
    | message => exact .inl rfl
    | store event e hw => exact .inr (.inr ⟨by rw [h.state, hw]; rfl, e.state_terminal⟩)
    | callback => exact .inl rfl
  | relay sinceMs hrelays => cases hrelays <;> exact .inl rfl
  | send => exact .inl rfl

theorem Agrees.terminal (h : Agrees d) (hterminal : isTerminal d.state = true) :
    ∃ e, d.worker = .callback e ∨ d.worker = .done e := by
  rw [h.state] at hterminal
  cases hw : d.worker with
  | callback e => exact ⟨e, .inl rfl⟩
  | done e => exact ⟨e, .inr rfl⟩
  | _ =>
    rw [hw] at hterminal
    cases hterminal

theorem Agrees.ended (h : Agrees d) (hterminal : isTerminal d.state = true) :
    ∃ e, d.worker.finishing = some e ∧ d.state = e.state ∧ d.message = e.message := by
  have hstate := h.state
  have hmessage := h.message
  obtain ⟨e, hw | hw⟩ := h.terminal hterminal
  all_goals
    rw [hw] at hstate hmessage ⊢
    exact ⟨e, rfl, hstate, hmessage⟩

theorem Works.keeps (hstep : Works d event d') {e : Ending} (hw : d.worker = .callback e ∨ d.worker = .done e) :
    d'.state = d.state ∧ d'.message = d.message := by
  cases hstep with
  | callback => exact ⟨rfl, rfl⟩
  | work event at' counters httpRequestId resumeFrom hfrom hto => exact ⟨rfl, rfl⟩
  | start _ h | message _ _ h | store _ _ h =>
    rw [h] at hw
    rcases hw with hw | hw <;> cases hw

theorem Moves.keeps (h : Agrees d) (hstep : Moves d event d') (hterminal : isTerminal d.state = true) :
    d'.state = d.state ∧ d'.message = d.message := by
  obtain ⟨e, hw⟩ := h.terminal hterminal
  cases hstep with
  | work hworks => exact hworks.keeps hw
  | relay sinceMs hrelays => cases hrelays <;> exact ⟨rfl, rfl⟩
  | send => exact ⟨rfl, rfl⟩

theorem Agrees.said (h : Agrees d) {state : State} (hmem : state ∈ d.calls.filterMap reports) :
    ∃ e, d.worker = .done e ∧ state = e.state ∧ d.state = e.state := by
  have hstate := h.state
  rw [h.calls] at hmem
  cases hw : d.worker with
  | done e =>
    rw [hw] at hmem hstate
    split_ifs at hmem
    · exact ⟨e, rfl, List.mem_singleton.mp hmem, hstate⟩
    · cases hmem
  | _ =>
    rw [hw] at hmem
    split_ifs at hmem <;> cases hmem

theorem Works.done_state (hstep : Works d event d') {e : Ending} (hw : d'.worker = .done e) : d'.state = d.state := by
  cases hstep with
  | start => cases hw
  | work event at' counters httpRequestId resumeFrom hfrom hto => rfl
  | message => rfl
  | store => cases hw
  | callback => rfl

theorem Moves.told (h : Agrees d) (hstep : Moves d event d') {state : State}
    (hmem : state ∈ d'.calls.filterMap reports) : d.state = state := by
  obtain ⟨e, hw, rfl, hstate⟩ := (h.moves hstep).said hmem
  rw [← hstate]
  cases hstep with
  | work hworks => exact (hworks.done_state hw).symm
  | relay sinceMs hrelays => cases hrelays <;> rfl
  | send => rfl

section Table

variable {targets : ℕ → ℤ} {s t : Service} {a : Action}

inductive Turns (targets : ℕ → ℤ) (s : Service) : Action → Service → Prop
  | accept (url destPath : Bytes) (callback : Bool) (job : Job)
      (h : DownloadService.enqueue s.mNextId url destPath callback = .ok job) :
      Turns targets s (.enqueue url destPath callback)
        { s.setTask s.mNextId { job } with mOrder := s.mOrder ++ [s.mNextId], mNextId := toInt32 (s.mNextId + 1) }
  | quiet (a : Action) (caller : ℕ → CallerAt) : Turns targets s a { s with caller }
  | flag (i : ℕ) (d : Task) (caller : ℕ → CallerAt) (h : s.mTasks (targets i) = some d) :
      Turns targets s (.cancel i) { s.setTask (targets i) { d with canceled := true } with caller }
  | task (id : ℤ) (event : Event) (d d' : Task) (hd : s.mTasks id = some d) (h : d.step event = some d') :
      Turns targets s (.task id event) (s.setTask id d')

theorem cancelStep_turns {i : ℕ} (h : s.cancelStep targets i = some t) : Turns targets s (.cancel i) t := by
  unfold Service.cancelStep at h
  split at h
  · cases h
    exact .quiet _ _
  · obtain ⟨d, hd, rfl⟩ := Option.map_eq_some_iff.mp h
    exact .quiet _ _
  · obtain ⟨d, hd, rfl⟩ := Option.map_eq_some_iff.mp h
    exact .flag i d _ hd
  · obtain ⟨d, hd, rfl⟩ := Option.map_eq_some_iff.mp h
    exact .quiet _ _
  · cases h
    exact .quiet _ _
  · cases h

theorem step_turns (h : step targets s a = some t) : Turns targets s a t := by
  cases a with
  | enqueue url destPath callback =>
    cases h
    unfold Service.enqueue
    cases hjob : DownloadService.enqueue s.mNextId url destPath callback with
    | error e => exact .quiet _ s.caller
    | ok job => exact .accept url destPath callback job hjob
  | cancel i => exact cancelStep_turns h
  | task id event =>
    obtain ⟨d, hd, h⟩ := Option.bind_eq_some_iff.mp h
    obtain ⟨d', hstep, rfl⟩ := Option.map_eq_some_iff.mp h
    exact .task id event d d' hd hstep
  | getState downloadId | describe downloadId | getDownloadIds =>
    cases h
    exact .quiet _ s.caller

def Room (s : Service) (a : Action) : Prop := a.enqueues = true → s.mOrder.length + 1 < 2 ^ 31

def firstIds (n : ℕ) : List ℤ := (List.range n).map (fun i : ℕ => (i : ℤ) + 1)

theorem firstIds_succ (n : ℕ) : firstIds (n + 1) = firstIds n ++ [(n : ℤ) + 1] := by
  rw [firstIds, List.range_succ, List.map_append]
  rfl

theorem mem_firstIds (n : ℕ) (id : ℤ) : id ∈ firstIds n ↔ 1 ≤ id ∧ id ≤ n := by
  rw [firstIds, List.mem_map]
  constructor
  · rintro ⟨i, hi, rfl⟩
    have := List.mem_range.mp hi
    omega
  · rintro ⟨hlo, hhi⟩
    exact ⟨(id - 1).toNat, List.mem_range.mpr (by omega), by omega⟩

theorem firstIds_increasing (n : ℕ) : (firstIds n).Pairwise (· < ·) := by
  refine List.Pairwise.map _ (fun i j hij => ?_) List.pairwise_lt_range
  omega

structure Booked (s : Service) : Prop where
  order : s.mOrder = firstIds s.mOrder.length
  next : s.mNextId = toInt32 (s.mOrder.length + 1)
  keys : ∀ id, (s.mTasks id).isSome = true ↔ id ∈ s.mOrder

theorem Booked.next_eq (h : Booked s) (hroom : s.mOrder.length + 1 < 2 ^ 31) : s.mNextId = s.mOrder.length + 1 := by
  rw [h.next]
  exact toInt32_small (by omega) (by omega)

theorem Booked.fresh (h : Booked s) (hroom : s.mOrder.length + 1 < 2 ^ 31) : s.mTasks s.mNextId = none := by
  rw [← Option.not_isSome_iff_eq_none, h.keys, h.order, mem_firstIds, h.next_eq hroom]
  omega

theorem setTask_isSome (s : Service) (id : ℤ) (d : Task) (i : ℤ) :
    ((s.setTask id d).mTasks i).isSome = true ↔ (s.mTasks i).isSome = true ∨ i = id := by
  unfold Service.setTask
  by_cases hi : i = id
  · simp [hi]
  · simp [hi]

theorem Booked.turns (h : Booked s) (hroom : Room s a) (hstep : Turns targets s a t) : Booked t := by
  cases hstep with
  | accept url destPath callback job =>
    have hnext := h.next_eq (hroom rfl)
    refine ⟨?_, ?_, ?_⟩
    · show s.mOrder ++ [s.mNextId] = firstIds (s.mOrder ++ [s.mNextId]).length
      rw [List.length_append, List.length_singleton, firstIds_succ, ← h.order, hnext]
    · show toInt32 (s.mNextId + 1) = toInt32 ((s.mOrder ++ [s.mNextId]).length + 1)
      rw [hnext, List.length_append]
      rfl
    · intro id
      show ((s.setTask s.mNextId { job }).mTasks id).isSome = true ↔ id ∈ s.mOrder ++ [s.mNextId]
      rw [setTask_isSome, h.keys, List.mem_append, List.mem_singleton]
  | quiet a caller => exact ⟨h.order, h.next, h.keys⟩
  | flag i d caller hd | task i event d d' hd =>
    refine ⟨h.order, h.next, fun id => Iff.trans ?_ (h.keys id)⟩
    refine (setTask_isSome s _ _ id).trans (or_iff_left_of_imp ?_)
    rintro rfl
    rw [hd]
    rfl

inductive Follows (a : Action) (id : ℤ) (d : Task) : Task → Prop
  | same : Follows a id d d
  | flag : Follows a id d { d with canceled := true }
  | move (event : Event) {d' : Task} (ha : a = .task id event) (h : Moves d event d') : Follows a id d d'

variable {id : ℤ}

theorem Follows.agrees (h : Follows a id d d') (hd : Agrees d) : Agrees d' := by
  cases h with
  | same => exact hd
  | flag => exact ⟨hd.state, hd.message, hd.calls⟩
  | move event ha hmove => exact hd.moves hmove

theorem Follows.advances (h : Follows a id d d') (hd : Agrees d) : Advances d.state d'.state := by
  cases h with
  | same => exact .inl rfl
  | flag => exact .inl rfl
  | move event ha hmove => exact hmove.advances hd

theorem Follows.keeps (h : Follows a id d d') (hd : Agrees d) (hterminal : isTerminal d.state = true) :
    d'.state = d.state ∧ d'.message = d.message := by
  cases h with
  | same => exact ⟨rfl, rfl⟩
  | flag => exact ⟨rfl, rfl⟩
  | move event ha hmove => exact hmove.keeps hd hterminal

theorem Follows.told (h : Follows a id d d') (hd : Agrees d) {state : State}
    (hmem : state ∈ d'.calls.filterMap reports) : d.state = state := by
  cases h with
  | same | flag =>
    obtain ⟨e, -, rfl, hstate⟩ := hd.said hmem
    exact hstate
  | move event ha hmove => exact hmove.told hd hmem

theorem setTask_cases {i : ℤ} {d₀ : Task} (h : (s.setTask i d₀).mTasks id = some d) :
    id = i ∧ d = d₀ ∨ s.mTasks id = some d := by
  by_cases hi : id = i
  · subst hi
    exact .inl ⟨rfl, Option.some.inj (h.symm.trans (Function.update_self _ _ _))⟩
  · exact .inr ((Function.update_of_ne hi _ _).symm.trans h)

theorem Turns.origin (h : Turns targets s a t) (hd : t.mTasks id = some d') :
    (∃ job, d' = { job }) ∨ ∃ d, s.mTasks id = some d ∧ Follows a id d d' := by
  cases h with
  | accept url destPath callback job =>
    rcases setTask_cases hd with ⟨-, rfl⟩ | hd
    · exact .inl ⟨job, rfl⟩
    · exact .inr ⟨d', hd, .same⟩
  | quiet a caller => exact .inr ⟨d', hd, .same⟩
  | flag i d₀ caller h₀ =>
    rcases setTask_cases hd with ⟨rfl, rfl⟩ | hd
    · exact .inr ⟨d₀, h₀, .flag⟩
    · exact .inr ⟨d', hd, .same⟩
  | task i event d₀ d₁ h₀ hstep =>
    rcases setTask_cases hd with ⟨rfl, rfl⟩ | hd
    · exact .inr ⟨d₀, h₀, .move event rfl (step_moves hstep)⟩
    · exact .inr ⟨d', hd, .same⟩

theorem setTask_kept {i : ℤ} {d₀ d₁ : Task} (h₀ : s.mTasks i = some d₀) (h : Follows a i d₀ d₁)
    (hd : s.mTasks id = some d) : ∃ d', (s.setTask i d₁).mTasks id = some d' ∧ Follows a id d d' := by
  by_cases hi : id = i
  · subst hi
    rw [hd] at h₀
    cases h₀
    exact ⟨d₁, Function.update_self _ _ _, h⟩
  · exact ⟨d, (Function.update_of_ne hi _ _).trans hd, .same⟩

theorem Turns.kept (h : Turns targets s a t) (hs : Booked s) (hroom : Room s a) (hd : s.mTasks id = some d) :
    ∃ d', t.mTasks id = some d' ∧ Follows a id d d' := by
  cases h with
  | accept url destPath callback job =>
    have hne : id ≠ s.mNextId := by
      rintro rfl
      rw [hs.fresh (hroom rfl)] at hd
      cases hd
    exact ⟨d, (Function.update_of_ne hne _ _).trans hd, .same⟩
  | quiet a caller => exact ⟨d, hd, .same⟩
  | flag i d₀ caller h₀ => exact setTask_kept h₀ .flag hd
  | task i event d₀ d₁ h₀ hstep => exact setTask_kept h₀ (.move event rfl (step_moves hstep)) hd

structure Sound (s : Service) : Prop where
  booked : Booked s
  agrees : ∀ id d, s.mTasks id = some d → Agrees d

theorem sound_initial : Sound initial := by
  refine ⟨⟨rfl, ?_, fun id => ?_⟩, fun id d hd => by cases hd⟩
  · exact (toInt32_small (by decide) (by decide)).symm
  · simp [initial]

theorem Sound.step (h : Sound s) (hroom : Room s a) (hstep : step targets s a = some t) : Sound t := by
  have hturn := step_turns hstep
  refine ⟨h.booked.turns hroom hturn, fun id d' hd' => ?_⟩
  rcases hturn.origin hd' with ⟨job, rfl⟩ | ⟨d, hd, hfollows⟩
  · exact .fresh job
  · exact hfollows.agrees (h.agrees id d hd)

theorem step_order (h : step targets s a = some t) :
    t.mOrder.length ≤ s.mOrder.length + if a.enqueues then 1 else 0 := by
  cases step_turns h with
  | accept =>
    show (s.mOrder ++ [s.mNextId]).length ≤ _
    simp [Action.enqueues]
  | quiet | flag | task => exact Nat.le_add_right _ _

theorem run_order {as : List Action} (h : run (step targets) s as = some t) :
    t.mOrder.length ≤ s.mOrder.length + as.countP Action.enqueues := by
  induction as generalizing s with
  | nil =>
    cases h
    exact Nat.le_add_right _ _
  | cons a as ih =>
    obtain ⟨r, hr, hrun⟩ := run_cons h
    have hstep := step_order hr
    have hrest := ih hrun
    rw [List.countP_cons]
    omega

theorem obeys_room {as : List Action} (h : s.mOrder.length + as.countP Action.enqueues < 2 ^ 31) :
    Obeys (step targets) Room s as := by
  induction as generalizing s with
  | nil => trivial
  | cons a as ih =>
    rw [List.countP_cons] at h
    refine ⟨fun ha => ?_, fun t ht => ih ?_⟩
    · rw [if_pos ha] at h
      omega
    · have hstep := step_order ht
      omega

theorem run_keeps {bs : List Action} (hs : Sound s) (hrun : run (step targets) s bs = some t)
    (hroom : Obeys (step targets) Room s bs) {id : ℤ} (hd : s.mTasks id = some d) :
    ∃ d', t.mTasks id = some d' ∧
      (isTerminal d.state = true → d'.state = d.state ∧ d'.message = d.message) := by
  have hstep {r u : Service} {a : Action}
      (hr : Sound r ∧ ∃ d', r.mTasks id = some d' ∧
        (isTerminal d.state = true → d'.state = d.state ∧ d'.message = d.message))
      (hroom : Room r a) (hu : step targets r a = some u) :
      Sound u ∧ ∃ d', u.mTasks id = some d' ∧
        (isTerminal d.state = true → d'.state = d.state ∧ d'.message = d.message) := by
    obtain ⟨hr, d₁, hd₁, hkeep⟩ := hr
    obtain ⟨d₂, hd₂, hfollows⟩ := (step_turns hu).kept hr.booked hroom hd₁
    refine ⟨hr.step hroom hu, d₂, hd₂, fun hterminal => ?_⟩
    obtain ⟨hstate, hmessage⟩ := hkeep hterminal
    obtain ⟨hstate', hmessage'⟩ := hfollows.keeps (hr.agrees id d₁ hd₁) (by rw [hstate, hterminal])
    exact ⟨hstate'.trans hstate, hmessage'.trans hmessage⟩
  exact (run_invariant hstep ⟨hs, d, hd, fun _ => ⟨rfl, rfl⟩⟩ hrun hroom).2

def returnedIds (s : Service) : Action → List ℤ
  | .enqueue url destPath callback => (s.enqueue url destPath callback).1.toOption.toList
  | _ => []

def accepted (targets : ℕ → ℤ) (s : Service) : List Action → List ℤ
  | [] => []
  | a :: as => returnedIds s a ++ ((step targets s a).map (fun t => accepted targets t as)).getD []

theorem step_returnedIds (h : step targets s a = some t) : t.mOrder = s.mOrder ++ returnedIds s a := by
  cases a with
  | enqueue url destPath callback =>
    cases h
    simp only [returnedIds, Service.enqueue]
    cases DownloadService.enqueue s.mNextId url destPath callback with
    | error e => exact (List.append_nil _).symm
    | ok job => rfl
  | cancel i => cases cancelStep_turns h <;> exact (List.append_nil _).symm
  | task id event => cases step_turns h <;> exact (List.append_nil _).symm
  | getState downloadId | describe downloadId | getDownloadIds =>
    cases h
    exact (List.append_nil _).symm

theorem run_accepted {as : List Action} (h : run (step targets) s as = some t) :
    t.mOrder = s.mOrder ++ accepted targets s as := by
  induction as generalizing s with
  | nil =>
    cases h
    exact (List.append_nil _).symm
  | cons a as ih =>
    obtain ⟨r, hr, hrun⟩ := run_cons h
    rw [ih hrun, step_returnedIds hr, accepted, hr, List.append_assoc]
    rfl

theorem task_lifecycle (targets : ℕ → ℤ) (as bs : List Action) (s t : Service)
    (hs : run (step targets) initial as = some s) (ht : run (step targets) s bs = some t)
    (hcount : (as ++ bs).countP Action.enqueues < 2 ^ 31) :
    (∀ id ∈ accepted targets initial as, s.mOrder.count id = 1 ∧ (s.mTasks id).isSome = true) ∧
    s.mOrder.Pairwise (· < ·) ∧
    (∀ url destPath callback e, (s.enqueue url destPath callback).1 = .error e →
      (s.enqueue url destPath callback).2 = s) ∧
    (∀ a id d', bs = [a] → s.mTasks id = none → t.mTasks id = some d' → d'.state = .pending) ∧
    ∀ id d, s.mTasks id = some d →
      (isTerminal d.state = true → ∃ e, d.worker.finishing = some e ∧ d.state = e.state ∧ d.message = e.message) ∧
      (∀ e, d.worker = .done e → d.state = e.state ∧
        d.calls.filterMap reports = if d.job.callback then [d.state] else []) ∧
      ∃ d', t.mTasks id = some d' ∧
        (isTerminal d.state = true → d'.state = d.state ∧ d'.message = d.message) ∧
        ∀ a, bs = [a] → Advances d.state d'.state ∧ ∀ state ∈ d'.calls.filterMap reports, d.state = state := by
  rw [List.countP_append] at hcount
  have horder := run_order hs
  have hzero : initial.mOrder.length = 0 := rfl
  have hroom : Obeys (step targets) Room initial as := obeys_room (by omega)
  have hroom' : Obeys (step targets) Room s bs := obeys_room (by omega)
  have hsound : Sound s := run_invariant Sound.step sound_initial hs hroom
  have hincreasing : s.mOrder.Pairwise (· < ·) := by
    rw [hsound.booked.order]
    exact firstIds_increasing _
  refine ⟨fun id hid => ?_, hincreasing, ?_, ?_, ?_⟩
  · have hmem : id ∈ s.mOrder := by
      rw [run_accepted hs]
      exact List.mem_append_right _ hid
    refine ⟨List.count_eq_one_of_mem ?_ hmem, (hsound.booked.keys id).mpr hmem⟩
    exact hincreasing.imp (fun h => ne_of_lt h)
  · intro url destPath callback e he
    unfold Service.enqueue at he ⊢
    split at he
    · rfl
    · cases he
  · rintro a id d' rfl hnone hsome
    obtain ⟨r, hr, hrun⟩ := run_cons ht
    cases hrun
    rcases (step_turns hr).origin hsome with ⟨job, rfl⟩ | ⟨d, hd, -⟩
    · rfl
    · rw [hnone] at hd
      cases hd
  · intro id d hd
    have hagrees := hsound.agrees id d hd
    refine ⟨hagrees.ended, fun e hw => ?_, ?_⟩
    · have hstate := hagrees.state
      have hcalls := hagrees.calls
      rw [hw] at hstate hcalls
      refine ⟨hstate, ?_⟩
      rw [hstate, hcalls]
      rfl
    · obtain ⟨d', hd', hkeep⟩ := run_keeps hsound ht hroom' hd
      refine ⟨d', hd', hkeep, ?_⟩
      rintro a rfl
      obtain ⟨r, hr, hrun⟩ := run_cons ht
      cases hrun
      obtain ⟨d₁, hd₁, hfollows⟩ := (step_turns hr).kept hsound.booked hroom'.1 hd
      rw [hd'] at hd₁
      cases hd₁
      exact ⟨hfollows.advances hagrees, fun state hmem => hfollows.told hagrees hmem⟩

end Table

theorem run_task {targets : ℕ → ℤ} {s : Service} {id : ℤ} {events : List Event} (hd : s.mTasks id = some d)
    (hrun : run Task.step d events = some d') :
    run (step targets) s (events.map (Action.task id)) = some (s.setTask id d') := by
  induction events generalizing s d with
  | nil =>
    cases hrun
    rw [Service.setTask, ← hd, Function.update_eq_self]
    rfl
  | cons event events ih =>
    obtain ⟨d₁, hd₁, hrun⟩ := run_cons hrun
    have hstep : step targets s (.task id event) = some (s.setTask id d₁) := by
      simp only [step, hd, Option.bind_some, hd₁, Option.map_some]
    rw [List.map_cons, run, hstep, Option.bind_some, ih (Function.update_self _ _ _) hrun, Service.setTask]
    simp only [Service.setTask, Function.update_idem]

theorem enqueue_job (job : Job) :
    DownloadService.enqueue job.id job.url job.destPath job.callback = .ok job := by
  have hdest : ¬(job.destPath = [] ∨ job.destPath.getLast? = some 47) := by
    rintro (h | h)
    · exact job.dest_ne h
    · exact job.dest_file h
  rw [DownloadService.enqueue, dif_neg job.url_ne, dif_neg hdest]

def alone (d : Task) : Service :=
  { initial.setTask 1 d with mOrder := [1], mNextId := toInt32 (1 + 1) }

theorem alone_task (d : Task) : (alone d).mTasks 1 = some d := by
  simp [alone, Service.setTask]

theorem step_alone {targets : ℕ → ℤ} {job : Job} (hid : job.id = 1) :
    step targets initial (.enqueue job.url job.destPath job.callback) = some (alone { job }) := by
  have hjob : DownloadService.enqueue 1 job.url job.destPath job.callback = .ok job := hid ▸ enqueue_job job
  simp only [step, Service.enqueue, show initial.mNextId = 1 from rfl, hjob]
  rfl

theorem run_alone {targets : ℕ → ℤ} {job : Job} {events : List Event} (hid : job.id = 1)
    (hrun : run Task.step { job } events = some d) :
    run (step targets) initial
      (.enqueue job.url job.destPath job.callback :: events.map (Action.task 1)) = some (alone d) := by
  rw [run, step_alone hid, Option.bind_some, run_task (alone_task _) hrun]
  simp only [alone, Service.setTask, Function.update_idem]

def opening : List Event :=
  [.go, .parents none, .measure 0, .go, .go, .openPart none, .httpService none, .newRequestId (.ok 1), .go, .go,
    .dup none, .go]

def closing : List Event := [.reply (.status (.ok 2)), .go, .go, .go, .rename none, .size 2 5, .go, .go, .go, .go]

theorem task_lifecycle_canceled_late :
    let job : Job := ⟨1, ascii "http://h/f", ascii "f", true, by decide, by decide, by decide⟩
    let as := .enqueue job.url job.destPath true :: (opening ++ closing).map (Action.task 1)
    ∃ s t d d', run (step (fun _ => 1)) initial as = some s ∧ run (step (fun _ => 1)) s [.cancel 0] = some t ∧
      s.mTasks 1 = some d ∧ t.mTasks 1 = some d' ∧ d.state = .completed ∧
      s.mOrder.count 1 = 1 ∧ d.calls.filterMap reports = [d.state] ∧ d'.state = d.state := by
  intro job as
  let d : Task :=
    { job, state := .completed, message := ascii "completed", counters := { downloaded := 2, total := 2 },
      httpRequestId := 1, worker := .done (.completed 2 5), calls := [.completed (ascii "f") 2 5] }
  have hd : run Task.step { job } (opening ++ closing) = some d := by decide +kernel
  have hs : run (step (fun _ => 1)) initial as = some (alone d) := run_alone rfl hd
  have ht : run (step (fun _ => 1)) (alone d) [.cancel 0] = some ((alone d).setCaller 0 .look) := by
    simp [run, step, Service.cancelStep, alone_task, show (alone d).caller 0 = .findTask from rfl]
  obtain ⟨hids, -, -, -, htasks⟩ := task_lifecycle _ as [.cancel 0] _ _ hs ht (by decide)
  obtain ⟨-, hreturned, d', hd', hkeep, -⟩ := htasks 1 d (alone_task d)
  have haccepted : [1] = [] ++ accepted (fun _ => 1) initial as := run_accepted hs
  rw [List.nil_append] at haccepted
  refine ⟨_, _, d, d', hs, ht, alone_task d, hd', rfl, (hids 1 ?_).1, (hreturned _ rfl).2, (hkeep rfl).1⟩
  rw [← haccepted]
  exact List.mem_cons_self

end BinderDownload.DownloadService.Tasks
