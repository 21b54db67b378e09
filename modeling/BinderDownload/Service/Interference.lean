import BinderDownload.Service.WorkerSteps

namespace BinderDownload.DownloadService.Workers

open Text Files HttpService

variable {jobs : ℕ → Job} {job : Job} {task : ℕ} {s t : Shared} {loc : Loc}

theorem FileAt.cellAt {path : Bytes} {ino : ℕ} {cell : Cell} (h : s.FileAt path ino cell) : s.cellAt path = cell := by
  rw [Shared.cellAt, h.1]
  exact h.2

theorem FileAt.setCell {path : Bytes} {ino : ℕ} {cell : Cell} (h : s.FileAt path ino cell) (cell' : Cell) :
    (s.setCell ino cell').FileAt path ino cell' := by
  refine ⟨h.1, ?_⟩
  simp [Shared.cell, Shared.setCell, Fs.setData]

theorem openPart_fileAt {path : Bytes} {denied : Option Errno} {ino : ℕ} {fs : Fs}
    (opened : s.fs.openWrite path denied = .ok (ino, fs)) :
    { s with fs, writers := if ino = s.fs.fresh then Function.update s.writers ino [] else s.writers }.FileAt path ino
      (s.cellAt path) := by
  obtain ⟨-, ⟨hn, rfl⟩ | ⟨hn, rfl, rfl⟩⟩ := Fs.openWrite_ok opened
  · rw [if_neg (s.fs.used hn).ne]
    exact ⟨hn, by rw [Shared.cellAt, hn]⟩
  · rw [if_pos rfl]
    refine ⟨by simp [Fs.create], ?_⟩
    rw [Shared.cellAt, hn]
    simp [Shared.cell, Fs.create, Cell.empty]

theorem Holds.onHeaders {ino startOffset : ℕ} (h : Holds job task s) (now : (s.worker task).phase = .respond ino) :
    Holds job task (headersStep task ino startOffset s) := by
  unfold Holds at h ⊢
  rw [now] at h
  unfold headersStep
  dsimp only
  split_ifs with hfresh
  · simp only [setWorker_self]
    exact ⟨h, hfresh.1, hfresh.2, trivial⟩
  · simp only [setWorker_self]
    refine ⟨[], rfl, rfl, ?_⟩
    rw [Worker.laid, Cell.write_nil, Cell.landing, if_neg hfresh]
    exact h

theorem Holds.ftruncate {ino : ℕ} (h : Holds job task s) (now : (s.worker task).phase = .truncate ino) :
    Holds job task (s.setCell ino .empty |>.goto task (.body ino 0 [])) := by
  unfold Holds at h ⊢
  rw [now] at h
  obtain ⟨hfile, hstart, hresume, hreceived⟩ := h
  simp only [goto_self, setCell_worker]
  refine ⟨[], hreceived, by simp [hstart], ?_⟩
  rw [Worker.laid, Cell.write_nil, Cell.landing, if_pos ⟨hstart, hresume⟩]
  exact FileAt.setCell hfile .empty

theorem Holds.onBody {ino pos : ℕ} (h : Holds job task s) (now : (s.worker task).phase = .body ino pos [])
    (data : Bytes) :
    Holds job task (s.setWorker task { s.worker task with
      phase := .body ino pos data, received := (s.worker task).received ++ data }) := by
  unfold Holds at h ⊢
  rw [now] at h
  obtain ⟨written, hreceived, hpos, hfile⟩ := h
  simp only [setWorker_self]
  rw [List.append_nil] at hreceived
  exact ⟨written, by rw [hreceived], hpos, hfile⟩

theorem Holds.write {ino pos : ℕ} {unwritten : Bytes} (h : Holds job task s)
    (now : (s.worker task).phase = .body ino pos unwritten) (n : ℕ) :
    Holds job task (s.setCell ino ((s.cell ino).write task pos (unwritten.take n)) |>.goto task
      (.body ino (pos + (unwritten.take n).length) (unwritten.drop n))) := by
  unfold Holds at h ⊢
  rw [now] at h
  obtain ⟨written, hreceived, hpos, hfile⟩ := h
  simp only [goto_self, setCell_worker]
  refine ⟨written ++ unwritten.take n, ?_, ?_, ?_⟩
  · rw [List.append_assoc, List.take_append_drop, hreceived]
  · rw [List.length_append, hpos, Nat.add_assoc]
  · have hcell : (s.cell ino).write task pos (unwritten.take n) =
        (s.worker task).laid task (written ++ unwritten.take n) := by
      rw [hfile.2, hpos]
      exact Cell.write_append _ _ _ _ _
    rw [hcell]
    exact FileAt.setCell hfile _

theorem Holds.succeed {ino pos : ℕ} (h : Holds job task s) (now : (s.worker task).phase = .body ino pos []) :
    Holds job task (s.goto task .rename) := by
  unfold Holds at h ⊢
  rw [now] at h
  obtain ⟨written, hreceived, hpos, hfile⟩ := h
  simp only [goto_self]
  rw [List.append_nil] at hreceived
  rw [← hreceived] at hfile
  exact ⟨ino, hfile⟩

theorem Holds.rename (h : Holds job task s) (now : (s.worker task).phase = .rename) (fs : Fs) :
    Holds job task ({ s with fs }.setWorker task { s.worker task with
      phase := .finish .completed, moved := some (s.cellAt job.partPath) }) := by
  unfold Holds at h ⊢
  rw [now] at h
  obtain ⟨ino, hfile⟩ := h
  simp only [setWorker_self]
  intro _
  rw [FileAt.cellAt hfile]
  rfl

theorem Moves.holds (hmove : Moves job task s t) (h : Holds job task s) : Holds job task t := by
  cases hmove with
  | walk phase quiet =>
    apply Holds.quiet
    rw [goto_self]
    exact quiet
  | mkdir fs same phase quiet =>
    apply Holds.quiet
    rw [goto_self]
    exact quiet
  | measure now =>
    unfold Holds
    simp only [setWorker_self]
    rfl
  | openPart now denied ino fs opened =>
    unfold Holds at h ⊢
    rw [now] at h
    rw [goto_self]
    dsimp only
    rw [← show s.cellAt job.partPath = (s.worker task).found from h]
    exact openPart_fileAt opened
  | fetchToFd ino now =>
    unfold Holds at h ⊢
    rw [now] at h
    rw [goto_self]
    exact h
  | onHeaders ino startOffset now => exact h.onHeaders now
  | ftruncate ino now => exact h.ftruncate now
  | onBody ino pos now data => exact h.onBody now data
  | write ino pos unwritten now n => exact h.write now n
  | succeed ino pos now => exact h.succeed now
  | rename now denied fs renamed => exact h.rename now fs
  | unlink denied =>
    apply Holds.quiet
    rw [goto_self]
    rfl
  | finish state now =>
    unfold Holds at h ⊢
    rw [now] at h
    rw [goto_self]
    exact h

theorem Spares.same (hfs : t.fs = s.fs) (hwriters : t.writers = s.writers) : s.Spares loc t := by
  refine ⟨?_, fun ino _ => by rw [hwriters]⟩
  rw [hfs]
  exact .refl loc s.fs

theorem FileAt.spares {path : Bytes} {ino : ℕ} {cell : Cell} (h : s.FileAt path ino cell)
    (hne : loc ≠ locate s.fs.cwd path) (cell' : Cell) : s.Spares loc (s.setCell ino cell') := by
  have hother : s.fs.node loc ≠ some (.file ino) := fun hn => hne (s.fs.single hn h.1)
  refine ⟨Fs.setData_spares hother, fun i hi => ?_⟩
  have hi' : i ≠ ino := by
    rintro rfl
    exact hother hi
  simp [Shared.setCell, hi']

theorem Moves.spares (hmove : Moves job task s t) (h : Holds job task s)
    (hpart : loc ≠ locate s.fs.cwd job.partPath) (hdest : loc ≠ locate s.fs.cwd job.destPath) : s.Spares loc t := by
  cases hmove with
  | walk phase quiet => exact Spares.same rfl rfl
  | mkdir fs same phase quiet => exact ⟨same.spares loc, fun _ _ => rfl⟩
  | measure now => exact Spares.same rfl rfl
  | openPart now denied ino fs opened =>
    refine ⟨Fs.openWrite_spares opened hpart, fun i hi => ?_⟩
    have hi' := (s.fs.used hi).ne
    simp only [Shared.goto, Shared.setWorker]
    split_ifs with hfresh
    · rw [Function.update_of_ne (by rw [hfresh]; exact hi')]
    · rfl
  | fetchToFd ino now => exact Spares.same rfl rfl
  | onHeaders ino startOffset now =>
    unfold headersStep
    dsimp only
    split_ifs
    · exact Spares.same rfl rfl
    · exact Spares.same rfl rfl
  | ftruncate ino now =>
    unfold Holds at h
    rw [now] at h
    have hspares := FileAt.spares h.1 hpart .empty
    exact ⟨hspares.toSpares, hspares.writers⟩
  | onBody ino pos now data => exact Spares.same rfl rfl
  | write ino pos unwritten now n =>
    unfold Holds at h
    rw [now] at h
    obtain ⟨written, -, -, hfile⟩ := h
    have hspares := FileAt.spares hfile hpart ((s.cell ino).write task pos (unwritten.take n))
    exact ⟨hspares.toSpares, hspares.writers⟩
  | succeed ino pos now => exact Spares.same rfl rfl
  | rename now denied fs renamed =>
    unfold Holds at h
    rw [now] at h
    obtain ⟨ino, hfile⟩ := h
    exact ⟨Fs.rename_spares hfile.1 renamed hpart hdest, fun _ _ => rfl⟩
  | unlink denied => exact ⟨Fs.unlink_spares hpart, fun _ _ => rfl⟩
  | finish state now => exact Spares.same rfl rfl

theorem Moves.others (hmove : Moves job task s t) {other : ℕ} (hne : other ≠ task) :
    t.worker other = s.worker other := by
  cases hmove with
  | onHeaders ino startOffset now =>
    unfold headersStep
    dsimp only
    split_ifs
    · exact Function.update_of_ne hne _ _
    · exact Function.update_of_ne hne _ _
  | _ => exact Function.update_of_ne hne _ _

theorem Moves.cwd (hmove : Moves job task s t) (h : Holds job task s) : t.fs.cwd = s.fs.cwd := by
  -- any place but the two that the task uses will do
  have hne (loc loc' : Loc) : loc ++ (loc' ++ [[]]) ≠ loc ∧ loc ++ (loc' ++ [[]]) ≠ loc' := by
    constructor
    · intro heq
      simpa using congrArg List.length heq
    · intro heq
      have := congrArg List.length heq
      simp only [List.length_append, List.length_singleton] at this
      omega
  obtain ⟨hpart, hdest⟩ := hne (locate s.fs.cwd job.partPath) (locate s.fs.cwd job.destPath)
  exact (hmove.spares h hpart hdest).cwd

theorem step_active {e : Event} (h : step jobs s (task, e) = some t) (hactive : (t.worker task).phase.active = true) :
    (s.worker task).phase.active = true ∨ e = .start := by
  cases hp : (s.worker task).phase with
  | pending =>
    cases e with
    | start => exact .inr rfl
    | _ => simp [step, hp] at h
  | finish state =>
    cases e with
    | finish =>
      simp only [step, hp, Option.some.injEq] at h
      rw [← h, goto_self] at hactive
      exact absurd hactive Bool.false_ne_true
    | _ => simp [step, hp] at h
  | ended state => cases e <;> simp [step, hp] at h
  | _ => exact .inl rfl

theorem step_inactive {e : Event} (h : step jobs s (task, e) = some t)
    (hactive : (s.worker task).phase.active = false) : t.fs = s.fs ∧ t.writers = s.writers := by
  cases hp : (s.worker task).phase with
  | pending =>
    cases e with
    | start =>
      simp only [step, hp, Option.some.injEq] at h
      rw [← h]
      exact ⟨rfl, rfl⟩
    | _ => simp [step, hp] at h
  | finish state =>
    cases e with
    | finish =>
      simp only [step, hp, Option.some.injEq] at h
      rw [← h]
      exact ⟨rfl, rfl⟩
    | _ => simp [step, hp] at h
  | ended state => cases e <;> simp [step, hp] at h
  | _ =>
    rw [hp] at hactive
    exact absurd hactive (by simp [Phase.active])

/-- Neither job writes, removes or replaces the `.part` file of the other. -/
structure Apart (cwd : Loc) (job other : Job) : Prop where
  part : locate cwd job.partPath ≠ locate cwd other.partPath
  dest : locate cwd job.destPath ≠ locate cwd other.partPath
  dest' : locate cwd job.partPath ≠ locate cwd other.destPath

theorem Apart.symm {cwd : Loc} {other : Job} (h : Apart cwd job other) : Apart cwd other job :=
  ⟨h.part.symm, h.dest'.symm, h.dest.symm⟩

/-- A worker starts only while no active worker uses its places. -/
def Alone (jobs : ℕ → Job) (s : Shared) (action : ℕ × Event) : Prop :=
  action.2 = .start → ∀ other, other ≠ action.1 → (s.worker other).phase.active = true →
    Apart s.fs.cwd (jobs action.1) (jobs other)

structure Sound (jobs : ℕ → Job) (s : Shared) : Prop where
  apart : ∀ task other, task ≠ other → (s.worker task).phase.active = true → (s.worker other).phase.active = true →
    Apart s.fs.cwd (jobs task) (jobs other)
  holds : ∀ task, Holds (jobs task) task s

theorem initial_sound (jobs : ℕ → Job) (fs : Fs) : Sound jobs (initial fs) := by
  constructor
  · intro task other _ hactive
    exact absurd hactive Bool.false_ne_true
  · intro task
    trivial

theorem Sound.step {action : ℕ × Event} (h : Sound jobs s) (hrule : Alone jobs s action)
    (hstep : step jobs s action = some t) : Sound jobs t := by
  obtain ⟨task, e⟩ := action
  have hmove := step_moves hstep
  have hcwd := hmove.cwd (h.holds task)
  -- a worker that is active after the step was so before, or has just started alone
  have hnew (other : ℕ) (hne : other ≠ task) (hactive : (t.worker task).phase.active = true)
      (hother : (t.worker other).phase.active = true) : Apart s.fs.cwd (jobs task) (jobs other) := by
    rw [hmove.others hne] at hother
    rcases step_active hstep hactive with hold | hstart
    · exact h.apart task other hne.symm hold hother
    · exact hrule hstart other hne hother
  constructor
  · intro u v huv hu hv
    rw [hcwd]
    by_cases h1 : u = task
    · subst h1
      exact hnew v huv.symm hu hv
    · by_cases h2 : v = task
      · subst h2
        exact (hnew u huv hv hu).symm
      · rw [hmove.others h1] at hu
        rw [hmove.others h2] at hv
        exact h.apart u v huv hu hv
  · intro u
    by_cases hu : u = task
    · subst hu
      exact hmove.holds (h.holds u)
    · refine (h.holds u).frame (hmove.others hu) (fun hactive => ?_)
      cases htask : (s.worker task).phase.active with
      | true =>
        have hapart := h.apart task u (Ne.symm hu) htask hactive
        exact hmove.spares (h.holds task) hapart.part.symm hapart.dest.symm
      | false =>
        obtain ⟨hfs, hwriters⟩ := step_inactive hstep htask
        exact Spares.same hfs hwriters

theorem laid_writers {w : Worker} {received : Bytes} {other : ℕ} (hne : other ≠ task)
    (h : some other ∈ (w.laid task received).writers) : some other ∈ w.found.writers := by
  rcases mem_overlay _ _ _ h with hfound | hnone | hown
  · unfold Cell.landing at hfound
    split_ifs at hfound
    · exact absurd hfound List.not_mem_nil
    · exact hfound
  · cases hnone
  · exact absurd (Option.some.inj (List.eq_of_mem_replicate hown)) hne

theorem obeys_running {actions : List (ℕ × Event)} (h : ∀ action ∈ actions, action.2 ≠ .start) :
    Obeys (step jobs) (Alone jobs) s actions := by
  induction actions generalizing s with
  | nil => trivial
  | cons action actions ih =>
    refine ⟨fun hstart => absurd hstart (h action List.mem_cons_self), fun t _ => ih ?_⟩
    exact fun a ha => h a (List.mem_cons_of_mem _ ha)

end BinderDownload.DownloadService.Workers
