import BinderDownload.Service.Workers

namespace BinderDownload.DownloadService.Workers

open Text Files HttpService

def Cell.landing (cell : Cell) (resumeFrom startOffset : ℕ) : Cell :=
  if startOffset = 0 ∧ 0 < resumeFrom then .empty else cell

theorem Cell.landing_bytes (cell : Cell) (resumeFrom startOffset : ℕ) :
    (cell.landing resumeFrom startOffset).bytes = HttpService.landing cell.bytes resumeFrom startOffset := by
  unfold landing HttpService.landing
  norm_cast
  split_ifs <;> rfl

@[simp] theorem Cell.write_nil (cell : Cell) (task pos : ℕ) : cell.write task pos [] = cell := rfl

theorem Cell.write_append (cell : Cell) (task pos : ℕ) (as bs : Bytes) :
    (cell.write task pos as).write task (pos + as.length) bs = cell.write task pos (as ++ bs) := by
  have hwriters := overlay_append none cell.writers pos (List.replicate as.length (some task))
    (List.replicate bs.length (some task))
  rw [List.length_replicate] at hwriters
  simp only [write, overlay_append, List.length_append, List.replicate_add, hwriters]

def Worker.laid (w : Worker) (task : ℕ) (received : Bytes) : Cell :=
  (w.found.landing w.resumeFrom w.startOffset).write task w.startOffset received

def Shared.FileAt (s : Shared) (path : Bytes) (ino : ℕ) (cell : Cell) : Prop :=
  s.fs.node (locate s.fs.cwd path) = some (.file ino) ∧ s.cell ino = cell

/-- What a worker can rely on, in each phase. -/
def Holds (job : Job) (task : ℕ) (s : Shared) : Prop :=
  match (s.worker task).phase with
  | .openPart => s.cellAt job.partPath = (s.worker task).found
  | .handOver ino | .respond ino => s.FileAt job.partPath ino (s.worker task).found
  | .truncate ino => s.FileAt job.partPath ino (s.worker task).found ∧ (s.worker task).startOffset = 0 ∧
      0 < (s.worker task).resumeFrom ∧ (s.worker task).received = []
  | .body ino pos unwritten => ∃ written, (s.worker task).received = written ++ unwritten ∧
      pos = (s.worker task).startOffset + written.length ∧
      s.FileAt job.partPath ino ((s.worker task).laid task written)
  | .rename => ∃ ino, s.FileAt job.partPath ino ((s.worker task).laid task (s.worker task).received)
  | .finish state | .ended state => state = .completed →
      (s.worker task).moved = some ((s.worker task).laid task (s.worker task).received)
  | _ => True

structure Shared.Spares (loc : Loc) (s t : Shared) : Prop extends s.fs.Spares loc t.fs where
  writers : ∀ ino, s.fs.node loc = some (.file ino) → t.writers ino = s.writers ino

variable {jobs : ℕ → Job} {job : Job} {task : ℕ} {s t : Shared} {loc : Loc}

theorem Shared.Spares.cell (h : s.Spares loc t) {ino : ℕ} (hn : s.fs.node loc = some (.file ino)) :
    t.cell ino = s.cell ino := by
  rw [Shared.cell, Shared.cell, h.data ino hn, h.writers ino hn]

theorem Shared.Spares.cellAt {path : Bytes} (h : s.Spares (locate s.fs.cwd path) t) :
    t.cellAt path = s.cellAt path := by
  have hfile := h.file
  unfold Shared.cellAt
  rw [h.cwd]
  rcases hn : s.fs.node (locate s.fs.cwd path) with _ | _ | ino
  · rcases hn' : t.fs.node (locate s.fs.cwd path) with _ | _ | ino
    · rfl
    · rfl
    · rw [hfile ino, hn] at hn'
      cases hn'
  · rcases hn' : t.fs.node (locate s.fs.cwd path) with _ | _ | ino
    · rfl
    · rfl
    · rw [hfile ino, hn] at hn'
      cases hn'
  · rw [(hfile ino).mpr hn]
    exact h.cell hn

theorem Shared.Spares.fileAt {path : Bytes} {ino : ℕ} {cell : Cell} (h : s.Spares (locate s.fs.cwd path) t)
    (hfile : s.FileAt path ino cell) : t.FileAt path ino cell := by
  obtain ⟨hn, hcell⟩ := hfile
  constructor
  · rw [h.cwd]
    exact (h.file ino).mpr hn
  · rw [h.cell hn, hcell]

theorem Holds.frame (h : Holds job task s) (hworker : t.worker task = s.worker task)
    (hspares : (s.worker task).phase.active = true → s.Spares (locate s.fs.cwd job.partPath) t) :
    Holds job task t := by
  unfold Holds at h ⊢
  rw [hworker]
  cases hp : (s.worker task).phase with
  | openPart =>
    rw [hp] at h hspares
    rw [(hspares rfl).cellAt]
    exact h
  | handOver ino =>
    rw [hp] at h hspares
    exact (hspares rfl).fileAt h
  | respond ino =>
    rw [hp] at h hspares
    exact (hspares rfl).fileAt h
  | truncate ino =>
    rw [hp] at h hspares
    exact ⟨(hspares rfl).fileAt h.1, h.2⟩
  | body ino pos unwritten =>
    rw [hp] at h hspares
    obtain ⟨written, hreceived, hpos, hfile⟩ := h
    exact ⟨written, hreceived, hpos, (hspares rfl).fileAt hfile⟩
  | rename =>
    rw [hp] at h hspares
    obtain ⟨ino, hfile⟩ := h
    exact ⟨ino, (hspares rfl).fileAt hfile⟩
  | finish state =>
    rw [hp] at h
    exact h
  | ended state =>
    rw [hp] at h
    exact h
  | pending | parents pos | measure | checkEmpty | unlink => trivial

def Phase.quiet : Phase → Bool
  | .parents _ | .measure | .checkEmpty | .unlink | .finish .failed | .finish .canceled => true
  | _ => false

theorem Holds.quiet (h : (s.worker task).phase.quiet = true) : Holds job task s := by
  unfold Holds
  cases hp : (s.worker task).phase with
  | parents pos | measure | checkEmpty | unlink => trivial
  | finish state =>
    rintro rfl
    rw [hp] at h
    exact absurd h (by decide)
  | pending | openPart | handOver ino | respond ino | truncate ino | body ino pos unwritten | rename | ended state =>
    rw [hp] at h
    exact absurd h Bool.false_ne_true

inductive Moves (job : Job) (task : ℕ) (s : Shared) : Shared → Prop
  | walk (phase : Phase) (quiet : phase.quiet = true) : Moves job task s (s.goto task phase)
  | mkdir (fs : Fs) (same : s.fs.SameFiles fs) (phase : Phase) (quiet : phase.quiet = true) :
      Moves job task s ({ s with fs }.goto task phase)
  | measure (now : (s.worker task).phase = .measure) : Moves job task s (s.setWorker task { s.worker task with
      phase := .openPart, found := s.cellAt job.partPath, resumeFrom := s.fs.fileSize job.partPath })
  | openPart (now : (s.worker task).phase = .openPart) (denied : Option Errno) (ino : ℕ) (fs : Fs)
      (opened : s.fs.openWrite job.partPath denied = .ok (ino, fs)) :
      Moves job task s ({ s with
        fs, writers := if ino = s.fs.fresh then Function.update s.writers ino [] else s.writers }.goto task
          (.handOver ino))
  | fetchToFd (ino : ℕ) (now : (s.worker task).phase = .handOver ino) : Moves job task s (s.goto task (.respond ino))
  | onHeaders (ino startOffset : ℕ) (now : (s.worker task).phase = .respond ino) :
      Moves job task s (headersStep task ino startOffset s)
  | ftruncate (ino : ℕ) (now : (s.worker task).phase = .truncate ino) :
      Moves job task s (s.setCell ino .empty |>.goto task (.body ino 0 []))
  | onBody (ino pos : ℕ) (now : (s.worker task).phase = .body ino pos []) (data : Bytes) :
      Moves job task s (s.setWorker task { s.worker task with
        phase := .body ino pos data, received := (s.worker task).received ++ data })
  | write (ino pos : ℕ) (unwritten : Bytes) (now : (s.worker task).phase = .body ino pos unwritten) (n : ℕ) :
      Moves job task s (s.setCell ino ((s.cell ino).write task pos (unwritten.take n)) |>.goto task
        (.body ino (pos + (unwritten.take n).length) (unwritten.drop n)))
  | succeed (ino pos : ℕ) (now : (s.worker task).phase = .body ino pos []) : Moves job task s (s.goto task .rename)
  | rename (now : (s.worker task).phase = .rename) (denied : Option Errno) (fs : Fs)
      (renamed : s.fs.rename job.partPath job.destPath denied = .ok fs) :
      Moves job task s ({ s with fs }.setWorker task { s.worker task with
        phase := .finish .completed, moved := some (s.cellAt job.partPath) })
  | unlink (denied : Bool) :
      Moves job task s ({ s with fs := s.fs.unlink job.partPath denied }.goto task (.finish .failed))
  | finish (state : State) (now : (s.worker task).phase = .finish state) :
      Moves job task s (s.goto task (.ended state))

theorem mkdirStep_moves {pos : ℕ} {denied : Option Errno} (h : mkdirStep job task pos denied s = some t) :
    Moves job task s t := by
  obtain ⟨dir, -, rfl⟩ := Option.map_eq_some_iff.mp h
  dsimp only
  cases hm : makeDir (dir.take ((findFrom 47 pos dir).getD dir.length)) (fun _ => denied) s.fs with
  | error e => exact .walk _ rfl
  | ok fs =>
    refine .mkdir fs (makeDir_sameFiles hm) _ ?_
    cases findFrom 47 pos dir <;> rfl

theorem openStep_moves (now : (s.worker task).phase = .openPart) (denied : Option Errno) :
    Moves job task s (openStep job task denied s) := by
  unfold openStep
  cases ho : s.fs.openWrite job.partPath denied with
  | error e => exact .walk _ rfl
  | ok p => exact .openPart now denied p.1 p.2 ho

theorem renameStep_moves (now : (s.worker task).phase = .rename) (denied : Option Errno) :
    Moves job task s (renameStep job task denied s) := by
  unfold renameStep
  cases hr : s.fs.rename job.partPath job.destPath denied with
  | error e => exact .walk _ rfl
  | ok fs => exact .rename now denied fs hr

theorem step_moves {e : Event} (h : step jobs s (task, e) = some t) : Moves (jobs task) task s t := by
  unfold step at h
  dsimp only at h
  split at h
  · cases h
    refine .walk _ ?_
    split_ifs <;> rfl
  · exact mkdirStep_moves h
  · cases h
    exact .measure ‹_›
  · cases h
    exact openStep_moves ‹_› _
  · cases h
    exact .walk _ rfl
  · cases h
    exact .walk _ rfl
  · cases h
    exact .fetchToFd _ ‹_›
  · cases h
    exact .onHeaders _ _ ‹_›
  · cases h
    exact .ftruncate _ ‹_›
  · cases h
    exact .onBody _ _ ‹_› _
  · cases h
    exact .write _ _ _ ‹_› _
  · cases h
    exact .succeed _ _ ‹_›
  · cases h
    refine .walk _ ?_
    split_ifs <;> rfl
  · cases h
    refine .walk _ ?_
    split_ifs <;> rfl
  · cases h
    refine .walk _ ?_
    split_ifs <;> rfl
  · cases h
    exact renameStep_moves ‹_› _
  · cases h
    refine .walk _ ?_
    split_ifs <;> rfl
  · cases h
    exact .unlink _
  · cases h
    exact .finish _ ‹_›
  · cases h

end BinderDownload.DownloadService.Workers
