import BinderDownload.Service.Await

namespace BinderDownload.DownloadService.Await

open Text

variable {endings : ℤ → Ending} {calls : ℕ → Call} {s t : Shared} {id : ℤ} {a : Action}

def CallerAt.waits (at' : CallerAt) : Prop := at' = .block ∨ at' = .blocked

structure Sound (calls : ℕ → Call) (s : Shared) : Prop where
  stored : ∀ id task, s.tasks id = some task → isTerminal task.state = true →
    s.worker id = .notify ∨ s.worker id = .done
  checked : ∀ i task, (s.caller i).waits → s.tasks (calls i).downloadId = some task →
    isTerminal task.state = true → s.worker (calls i).downloadId = .notify

theorem initial_sound (calls : ℕ → Call) : Sound calls initial :=
  ⟨by simp [initial], by simp [initial]⟩

theorem Sound.callers (h : Sound calls s) (htasks : t.tasks = s.tasks) (hworker : t.worker = s.worker)
    (hcaller : ∀ i, (t.caller i).waits → (s.caller i).waits) : Sound calls t := by
  constructor
  · rw [htasks, hworker]
    exact h.stored
  · intro i task hi
    rw [htasks, hworker]
    exact h.checked i task (hcaller i hi)

theorem Sound.caller (h : Sound calls s) {i : ℕ} {at' : CallerAt} (htasks : t.tasks = s.tasks)
    (hworker : t.worker = s.worker) (hcaller : t.caller = Function.update s.caller i at')
    (hat : at'.waits → (s.caller i).waits) : Sound calls t := by
  apply h.callers htasks hworker
  intro j hj
  rw [hcaller] at hj
  by_cases hji : j = i
  · subst hji
    rw [Function.update_self] at hj
    exact hat hj
  · rwa [Function.update_of_ne hji] at hj

theorem Sound.stores (h : Sound calls s) {task : Task} {at' : WorkerAt}
    (htasks : t.tasks = Function.update s.tasks id (some task)) (hworker : t.worker = Function.update s.worker id at')
    (hcaller : t.caller = s.caller) (hat : isTerminal task.state = true → at' = .notify) : Sound calls t := by
  constructor
  · intro j task' hj hterminal
    rw [htasks] at hj
    rw [hworker]
    by_cases hji : j = id
    · subst hji
      rw [Function.update_self] at hj ⊢
      cases hj
      exact .inl (hat hterminal)
    · rw [Function.update_of_ne hji] at hj ⊢
      exact h.stored j task' hj hterminal
  · intro i task' hi hj hterminal
    rw [htasks] at hj
    rw [hcaller] at hi
    rw [hworker]
    by_cases hji : (calls i).downloadId = id
    · rw [hji, Function.update_self] at hj ⊢
      cases hj
      exact hat hterminal
    · rw [Function.update_of_ne hji] at hj ⊢
      exact h.checked i task' hi hj hterminal

theorem Sound.moves (h : Sound calls s) {at' : WorkerAt} (hat : s.worker id ≠ .notify ∧ s.worker id ≠ .done)
    (htasks : t.tasks = s.tasks) (hworker : t.worker = Function.update s.worker id at')
    (hcaller : t.caller = s.caller) : Sound calls t := by
  have hfresh (j : ℤ) (task : Task) (hj : s.tasks j = some task) (hterminal : isTerminal task.state = true) :
      j ≠ id := by
    rintro rfl
    rcases h.stored j task hj hterminal with hw | hw
    · exact hat.1 hw
    · exact hat.2 hw
  constructor
  · intro j task hj hterminal
    rw [htasks] at hj
    rw [hworker, Function.update_of_ne (hfresh j task hj hterminal)]
    exact h.stored j task hj hterminal
  · intro i task hi hj hterminal
    rw [htasks] at hj
    rw [hcaller] at hi
    rw [hworker, Function.update_of_ne (hfresh _ task hj hterminal)]
    exact h.checked i task hi hj hterminal

/-- No `notify_all` comes while a caller of its task is between its check and its block. -/
def Undisturbed (calls : ℕ → Call) (s : Shared) (a : Action) : Prop :=
  ∀ id, a = .worker id → s.worker id = .notify → ∀ i, (calls i).downloadId = id → s.caller i ≠ .block

theorem Sound.notifies (h : Sound calls s) (hfree : ∀ i, (calls i).downloadId = id → s.caller i ≠ .block) :
    Sound calls (s.notifyAll.setWorker id .done) := by
  constructor
  · intro j task hj hterminal
    by_cases hji : j = id
    · subst hji
      exact .inr (Function.update_self _ _ _)
    · simp only [Shared.setWorker, Shared.notifyAll, Function.update_of_ne hji]
      exact h.stored j task hj hterminal
  · intro i task hi hj hterminal
    have hblock : s.caller i = .block := by
      simp only [Shared.setWorker, Shared.notifyAll, CallerAt.waits] at hi
      split_ifs at hi with hb
      · simp at hi
      · exact hi.resolve_right hb
    have hji : (calls i).downloadId ≠ id := fun hji => hfree i hji hblock
    simp only [Shared.setWorker, Shared.notifyAll, Function.update_of_ne hji]
    exact h.checked i task (.inl hblock) hj hterminal

theorem acquire_some {thread : Thread} (h : s.acquire thread = some t) : t = { s with mLock := some thread } := by
  unfold Shared.acquire at h
  split_ifs at h
  exact (Option.some.inj h).symm

theorem Sound.workerStep (h : Sound calls s) (hrule : Undisturbed calls s (.worker id))
    (hstep : workerStep endings s id = some t) : Sound calls t := by
  unfold Await.workerStep at hstep
  cases hw : s.worker id with
  | enqueue =>
    simp only [hw] at hstep
    split_ifs at hstep
    cases hstep
    exact h.stores rfl rfl rfl (by decide)
  | start =>
    simp only [hw] at hstep
    obtain ⟨task, -, rfl⟩ := Option.map_eq_some_iff.mp hstep
    exact h.stores rfl rfl rfl (by simp [isTerminal])
  | work =>
    simp only [hw] at hstep
    cases hstep
    exact h.moves (by simp [hw]) rfl rfl rfl
  | lock =>
    simp only [hw] at hstep
    obtain ⟨u, hu, rfl⟩ := Option.map_eq_some_iff.mp hstep
    rw [acquire_some hu]
    exact h.moves (by simp [hw]) rfl rfl rfl
  | message =>
    simp only [hw] at hstep
    obtain ⟨task, htask, rfl⟩ := Option.map_eq_some_iff.mp hstep
    refine h.stores rfl rfl rfl (fun hterminal => ?_)
    have := h.stored id task htask hterminal
    simp [hw] at this
  | unlock =>
    simp only [hw] at hstep
    cases hstep
    exact h.moves (by simp [hw]) rfl rfl rfl
  | store =>
    simp only [hw] at hstep
    obtain ⟨task, -, rfl⟩ := Option.map_eq_some_iff.mp hstep
    exact h.stores rfl rfl rfl (fun _ => rfl)
  | notify =>
    simp only [hw] at hstep
    cases hstep
    exact h.notifies (hrule id rfl hw)
  | done => simp [hw] at hstep

theorem Sound.blocks (h : Sound calls s) {i : ℕ} {task : Task} (htask : s.tasks (calls i).downloadId = some task)
    (hstate : isTerminal task.state = false) : Sound calls (s.setCaller i .block) := by
  constructor
  · exact h.stored
  · intro j task' hj htask' hterminal
    by_cases hji : j = i
    · subst hji
      change s.tasks (calls j).downloadId = some task' at htask'
      rw [htask] at htask'
      cases htask'
      rw [hstate] at hterminal
      exact absurd hterminal Bool.false_ne_true
    · simp only [Shared.setCaller, Function.update_of_ne hji] at hj
      exact h.checked j task' hj htask' hterminal

theorem Sound.callerStep (h : Sound calls s) {i : ℕ} (hstep : callerStep calls s i = some t) : Sound calls t := by
  unfold Await.callerStep at hstep
  cases hc : s.caller i with
  | find =>
    simp only [hc] at hstep
    obtain ⟨u, hu, rfl⟩ := Option.map_eq_some_iff.mp hstep
    rw [acquire_some hu]
    exact h.caller rfl rfl rfl (by simp [CallerAt.waits])
  | look =>
    simp only [hc] at hstep
    cases hstep
    refine h.caller rfl rfl rfl ?_
    split_ifs <;> simp [CallerAt.waits]
  | lock =>
    simp only [hc] at hstep
    obtain ⟨u, hu, rfl⟩ := Option.map_eq_some_iff.mp hstep
    rw [acquire_some hu]
    exact h.caller rfl rfl rfl (by simp [CallerAt.waits])
  | check last =>
    simp only [hc] at hstep
    obtain ⟨task, htask, rfl⟩ := Option.map_eq_some_iff.mp hstep
    by_cases hread : isTerminal task.state = true ∨ last = true
    · rw [if_pos hread]
      exact h.caller rfl rfl rfl (by simp [CallerAt.waits])
    · rw [if_neg hread]
      exact h.blocks htask (by simpa using fun hterminal => hread (.inl hterminal))
  | block =>
    simp only [hc] at hstep
    cases hstep
    exact h.caller rfl rfl rfl (by simp [hc, CallerAt.waits])
  | blocked => simp [hc] at hstep
  | relock last =>
    simp only [hc] at hstep
    obtain ⟨u, hu, rfl⟩ := Option.map_eq_some_iff.mp hstep
    rw [acquire_some hu]
    exact h.caller rfl rfl rfl (by simp [CallerAt.waits])
  | read =>
    simp only [hc] at hstep
    obtain ⟨task, -, rfl⟩ := Option.map_eq_some_iff.mp hstep
    exact h.caller rfl rfl rfl (by simp [CallerAt.waits])
  | leave state =>
    simp only [hc] at hstep
    cases hstep
    exact h.caller rfl rfl rfl (by simp [CallerAt.waits])
  | returned state => simp [hc] at hstep

theorem Sound.step (h : Sound calls s) (hrule : Undisturbed calls s a) (hstep : step endings calls s a = some t) :
    Sound calls t := by
  cases a with
  | worker id => exact h.workerStep hrule hstep
  | caller i => exact h.callerStep hstep
  | wake i =>
    simp only [Await.step] at hstep
    split_ifs at hstep
    cases hstep
    exact h.caller rfl rfl rfl (by simp [CallerAt.waits])
  | expire i =>
    simp only [Await.step] at hstep
    split_ifs at hstep
    cases hstep
    exact h.caller rfl rfl rfl (by simp [CallerAt.waits])

def WorkerAt.finishing (at' : WorkerAt) : Bool :=
  at' = .lock ∨ at' = .message ∨ at' = .unlock ∨ at' = .store ∨ at' = .notify

/-- A caller without a timeout is blocked for a task that has ended, and nobody is going to wake it. -/
def Stranded (calls : ℕ → Call) (s : Shared) (i : ℕ) : Prop :=
  (calls i).timeoutMs ≤ 0 ∧ s.caller i = .blocked ∧
    (∃ task, s.tasks (calls i).downloadId = some task ∧ isTerminal task.state = true) ∧
    (s.worker (calls i).downloadId).finishing = false

theorem await_not_stranded (endings : ℤ → Ending) (calls : ℕ → Call) (actions : List Action) (s : Shared)
    (hrun : run (step endings calls) initial actions = some s)
    (hrule : Obeys (step endings calls) (Undisturbed calls) initial actions) (i : ℕ) : ¬ Stranded calls s i := by
  have hsound : Sound calls s := run_invariant Sound.step (initial_sound calls) hrun hrule
  rintro ⟨-, hblocked, ⟨task, htask, hterminal⟩, hfinish⟩
  have hnotify := hsound.checked i task (.inr hblocked) htask hterminal
  rw [hnotify] at hfinish
  exact absurd hfinish (by decide)

theorem await_not_stranded_notified :
    let endings : ℤ → Ending := fun _ => ⟨.completed, ascii "completed", rfl⟩
    let calls : ℕ → Call := fun _ => ⟨1, 0⟩
    let actions : List Action := [.worker 1, .worker 1, .caller 0, .caller 0, .caller 0, .caller 0, .caller 0,
      .worker 1, .worker 1, .worker 1, .worker 1, .worker 1, .worker 1]
    ∃ s, run (step endings calls) initial actions = some s ∧ s.caller 0 = .relock false ∧ ¬ Stranded calls s 0 := by
  intro endings calls actions
  refine ⟨_, rfl, rfl, await_not_stranded endings calls actions _ rfl ?_ 0⟩
  have hfree (i : ℕ) : Function.update (fun _ => CallerAt.find) 0 .blocked i ≠ .block := by
    rw [Function.update_apply]
    split_ifs <;> decide
  simp [actions, Obeys, Undisturbed, step, workerStep, callerStep, initial, Shared.acquire, Shared.setWorker,
    Shared.setCaller, Shared.setTask, Shared.release, Shared.notifyAll, calls, endings, isTerminal, hfree]

def Announced (s : Shared) : Prop :=
  ∀ id, s.worker id = .notify → ∃ task, s.tasks id = some task ∧ isTerminal task.state = true

theorem Announced.keeps (h : Announced s) (htasks : t.tasks = s.tasks) (hworker : t.worker = s.worker) :
    Announced t := by
  unfold Announced
  rw [htasks, hworker]
  exact h

theorem Announced.moves (h : Announced s) {at' : WorkerAt} (hat : at' ≠ .notify)
    (htasks : ∀ id', id' ≠ id → t.tasks id' = s.tasks id') (hworker : t.worker = Function.update s.worker id at') :
    Announced t := by
  intro id' hid'
  rw [hworker] at hid'
  by_cases hid : id' = id
  · rw [hid, Function.update_self] at hid'
    exact absurd hid' hat
  · rw [Function.update_of_ne hid] at hid'
    rw [htasks id' hid]
    exact h id' hid'

theorem Announced.workerStep (h : Announced s) (hstep : workerStep endings s id = some t) : Announced t := by
  have hother (task : Task) (id' : ℤ) (hid : id' ≠ id) : Function.update s.tasks id (some task) id' = s.tasks id' :=
    Function.update_of_ne hid _ _
  unfold Await.workerStep at hstep
  cases hw : s.worker id with
  | enqueue =>
    simp only [hw] at hstep
    split_ifs at hstep
    cases hstep
    exact h.moves (by decide) (hother _) rfl
  | start | message =>
    simp only [hw] at hstep
    obtain ⟨task, -, rfl⟩ := Option.map_eq_some_iff.mp hstep
    exact h.moves (by decide) (hother _) rfl
  | work | unlock | notify =>
    simp only [hw] at hstep
    cases hstep
    exact h.moves (by decide) (fun _ _ => rfl) rfl
  | lock =>
    simp only [hw] at hstep
    obtain ⟨u, hu, rfl⟩ := Option.map_eq_some_iff.mp hstep
    rw [acquire_some hu]
    exact h.moves (by decide) (fun _ _ => rfl) rfl
  | store =>
    simp only [hw] at hstep
    obtain ⟨task, -, rfl⟩ := Option.map_eq_some_iff.mp hstep
    intro id' hid'
    by_cases hid : id' = id
    · subst hid
      exact ⟨_, Function.update_self _ _ _, (endings id').terminal⟩
    · simp only [Shared.setWorker, Shared.setTask, Function.update_of_ne hid] at hid' ⊢
      exact h id' hid'
  | done => simp [hw] at hstep

theorem callerStep_tasks {i : ℕ} (hstep : callerStep calls s i = some t) : t.tasks = s.tasks ∧ t.worker = s.worker := by
  unfold Await.callerStep at hstep
  cases hc : s.caller i with
  | find | lock | relock last =>
    simp only [hc] at hstep
    obtain ⟨u, hu, rfl⟩ := Option.map_eq_some_iff.mp hstep
    rw [acquire_some hu]
    exact ⟨rfl, rfl⟩
  | check last | read =>
    simp only [hc] at hstep
    obtain ⟨task, -, rfl⟩ := Option.map_eq_some_iff.mp hstep
    exact ⟨rfl, rfl⟩
  | look | block | leave state =>
    simp only [hc] at hstep
    cases hstep
    exact ⟨rfl, rfl⟩
  | blocked | returned state => simp [hc] at hstep

theorem Announced.step (h : Announced s) (_ : True) (hstep : step endings calls s a = some t) : Announced t := by
  cases a with
  | worker id => exact h.workerStep hstep
  | caller i =>
    obtain ⟨htasks, hworker⟩ := callerStep_tasks hstep
    exact h.keeps htasks hworker
  | wake i | expire i =>
    simp only [Await.step] at hstep
    split_ifs at hstep
    cases hstep
    exact h.keeps rfl rfl

theorem disturbed_stranded {actions : List Action} {i : ℕ}
    (hrun : run (step endings calls) initial actions = some s) (hlong : (calls i).timeoutMs ≤ 0)
    (hcaller : s.caller i = .block) (hworker : s.worker (calls i).downloadId = .notify) :
    ∃ t, run (step endings calls) s [.worker (calls i).downloadId, .caller i] = some t ∧ Stranded calls t i := by
  have hannounced : Announced s := run_invariant Announced.step (by simp [Announced, initial]) hrun .always
  obtain ⟨task, htask, hterminal⟩ := hannounced _ hworker
  have hnotified : step endings calls s (.worker (calls i).downloadId) =
      some (s.notifyAll.setWorker (calls i).downloadId .done) := by
    simp only [step, workerStep, hworker]
  generalize hu : s.notifyAll.setWorker (calls i).downloadId .done = u at hnotified
  have hblock : u.caller i = .block := by
    simp [← hu, Shared.setWorker, Shared.notifyAll, hcaller]
  refine ⟨u.release.setCaller i .blocked, ?_, hlong, Function.update_self _ _ _, ⟨task, ?_, hterminal⟩, ?_⟩
  · rw [run, hnotified]
    simp only [Option.bind_some, run, step, callerStep, hblock]
  · rw [← hu]
    exact htask
  · simp [← hu, Shared.setCaller, Shared.release, Shared.setWorker, WorkerAt.finishing]

theorem await_stranded :
    let endings : ℤ → Ending := fun _ => ⟨.completed, ascii "completed", rfl⟩
    let calls : ℕ → Call := fun _ => ⟨1, 0⟩
    let actions : List Action := [.worker 1, .worker 1, .worker 1, .worker 1, .worker 1, .worker 1,
      .caller 0, .caller 0, .caller 0, .caller 0, .worker 1, .worker 1, .caller 0]
    ∃ s, run (step endings calls) initial actions = some s ∧ Stranded calls s 0 := by
  intro endings calls actions
  exact ⟨_, rfl, by decide, rfl, ⟨_, rfl, rfl⟩, rfl⟩

end BinderDownload.DownloadService.Await
