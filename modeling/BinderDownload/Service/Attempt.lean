import BinderDownload.Service.Fetch
import BinderDownload.Service.DownloadService

/-!
One attempt, seen from the file system: what is left in the `.part` file, and what a completed attempt
leaves at the destination. An empty `.part` file and none at all are the same here.
-/

namespace BinderDownload.DownloadService

open Text Files HttpService

def leftover (job : Job) (fs : Fs) : Bytes := (fs.content job.partPath).getD []

theorem makeDir_sameFiles {built : Bytes} {denied : Bytes → Option Errno} {fs fs' : Fs}
    (h : makeDir built denied fs = .ok fs') : fs.SameFiles fs' := by
  unfold makeDir at h
  split_ifs at h
  · cases h
    exact .refl fs
  · split at h
    · rename_i hm
      cases h
      exact Fs.mkdir_sameFiles hm
    · cases h
      exact .refl fs
    · cases h

theorem makeDirs_sameFiles (dir : Bytes) (denied : Bytes → Option Errno) (pos : ℕ) (fs : Fs) :
    fs.SameFiles (makeDirs dir denied pos fs).2 := by
  fun_induction makeDirs dir denied pos fs with
  | case1 pos fs h error he => exact .refl fs
  | case2 pos fs h fs' he => exact makeDir_sameFiles he
  | case3 pos fs next h error he => exact .refl fs
  | case4 pos fs next h fs' he ih => exact (makeDir_sameFiles he).trans ih

theorem ensureParentDir_sameFiles (path : Bytes) (denied : Bytes → Option Errno) (fs : Fs) :
    fs.SameFiles (ensureParentDir path denied fs).2 := by
  unfold ensureParentDir
  split
  · exact .refl fs
  · exact .refl fs
  · exact makeDirs_sameFiles _ denied 0 fs

section Ways

variable (job : Job) (env : Env)

def measured (fs : Fs) : Counters where
  downloaded := fs.fileSize job.partPath
  resumedFrom := fs.fileSize job.partPath

inductive Attempts (fs : Fs) : Outcome → Prop
  | parentless {fs1 : Fs} (error : Bytes)
      (parent : ensureParentDir job.destPath env.mkdirError fs = (some error, fs1)) :
      Attempts fs (fail job env {} fs1 .badDestination error)
  | unopened {fs1 : Fs} {e : Errno} (counters : Counters) (message : Bytes)
      (parent : ensureParentDir job.destPath env.mkdirError fs = (none, fs1))
      (opened : fs1.openWrite job.partPath env.openError = .error e) (known : counters = measured job fs1) :
      Attempts fs (fail job env counters fs1 .io message)
  | failed {fs1 fs2 : Fs} {ino : ℕ} (counters : Counters) (code : ErrorCode) (message : Bytes)
      (parent : ensureParentDir job.destPath env.mkdirError fs = (none, fs1))
      (opened : fs1.openWrite job.partPath env.openError = .ok (ino, fs2))
      (cause : env.httpError ≠ none ∨ env.requestIdError ≠ none ∨ env.canceledBefore = false ∧ env.dupError ≠ none)
      (known : counters = measured job fs1) : Attempts fs (fail job env counters fs2 code message)
  | canceled {fs1 fs2 : Fs} {ino : ℕ} (counters : Counters)
      (parent : ensureParentDir job.destPath env.mkdirError fs = (none, fs1))
      (opened : fs1.openWrite job.partPath env.openError = .ok (ino, fs2))
      (http : env.httpError = none) (requestId : env.requestIdError = none) (early : env.canceledBefore = true)
      (known : counters = measured job fs1) : Attempts fs (cancelDone job counters fs2)
  | transferred {fs1 fs2 : Fs} {ino : ℕ} (parent : ensureParentDir job.destPath env.mkdirError fs = (none, fs1))
      (opened : fs1.openWrite job.partPath env.openError = .ok (ino, fs2))
      (http : env.httpError = none) (requestId : env.requestIdError = none) (early : env.canceledBefore = false)
      (dup : env.dupError = none) : Attempts fs (transfer job env (fs1.fileSize job.partPath) ino fs2)

theorem runTask_attempts (fs : Fs) : Attempts job env fs (runTask job env fs) := by
  unfold runTask
  rcases hp : ensureParentDir job.destPath env.mkdirError fs with ⟨_ | error, fs1⟩
  · dsimp only
    cases ho : fs1.openWrite job.partPath env.openError with
    | error e => exact .unopened _ _ hp ho rfl
    | ok p =>
      obtain ⟨ino, fs2⟩ := p
      dsimp only
      cases hh : env.httpError with
      | some error => exact .failed _ _ _ hp ho (.inl (by simp [hh])) rfl
      | none =>
        cases hi : env.requestIdError with
        | some error => exact .failed _ _ _ hp ho (.inr (.inl (by simp [hi]))) rfl
        | none =>
          dsimp only
          split_ifs with hc
          · exact .canceled _ hp ho hh hi hc rfl
          · have hc' : env.canceledBefore = false := by simpa using hc
            cases hd : env.dupError with
            | some e => exact .failed _ _ _ hp ho (.inr (.inr ⟨hc', by simp [hd]⟩)) rfl
            | none => exact .transferred hp ho hh hi hc' hd
  · exact .parentless error hp

variable {job env} in
theorem runTask_transfer {fs fs1 fs2 : Fs} {ino : ℕ}
    (parent : ensureParentDir job.destPath env.mkdirError fs = (none, fs1))
    (opened : fs1.openWrite job.partPath env.openError = .ok (ino, fs2)) (http : env.httpError = none)
    (requestId : env.requestIdError = none) (early : env.canceledBefore = false) (dup : env.dupError = none) :
    runTask job env fs = transfer job env (fs1.fileSize job.partPath) ino fs2 := by
  simp only [runTask, parent, opened, http, requestId, early, dup, Bool.false_eq_true, if_false]

def Env.Aborts (env : Env) (status : Option Status) : Prop :=
  env.transportError ≠ none ∧ env.canceledAfter = true ∨
    env.transportError = none ∧ ∃ code message, status = some (.failure code message) ∧
      (env.canceledAfter = true ∨ code = .canceled)

inductive Replies (counters : Counters) (fs : Fs) (status : Option Status) : Outcome → Prop
  | waiting (reply : status = none) (goes : ¬env.Aborts status) :
      Replies counters fs status { state := .running, counters, fs }
  | canceled (aborts : env.Aborts status) : Replies counters fs status (cancelDone job counters fs)
  | failed (code : ErrorCode) (message : Bytes) (goes : ¬env.Aborts status) :
      Replies counters fs status (fail job env counters fs code message)
  | completed (written : ℕ) (reply : status = some (.ok written)) (goes : ¬env.Aborts status) :
      Replies counters fs status (complete job env counters written fs)

/-- All messages are handled before the reply: the counters and the calls are those of the relay, then of the worker. -/
structure Delivered (resumeFrom : ℕ) (sent : List Progress) (counters : Counters) (worker out : Outcome) : Prop where
  relayed : counters =
    (({ downloaded := resumeFrom, resumedFrom := resumeFrom } : Counters).relayAll job env.sinceMs 0 sent).1
  counters : out.counters = worker.counters
  calls : out.calls =
    (({ downloaded := resumeFrom, resumedFrom := resumeFrom } : Counters).relayAll job env.sinceMs 0 sent).2 ++
      worker.calls

theorem transfer_replies (resumeFrom ino : ℕ) (fs : Fs) :
    ∃ counters out, Replies job env counters
        (fs.setData ino (fetchToFd job.url resumeFrom true env.world (fs.data ino)).bytes)
        (fetchToFd job.url resumeFrom true env.world (fs.data ino)).status out ∧
      (transfer job env resumeFrom ino fs).state = out.state ∧ (transfer job env resumeFrom ino fs).fs = out.fs ∧
      ((fetchToFd job.url resumeFrom true env.world (fs.data ino)).sent.length ≤ env.relayed →
        Delivered job env resumeFrom (fetchToFd job.url resumeFrom true env.world (fs.data ino)).sent counters out
          (transfer job env resumeFrom ino fs)) := by
  unfold transfer
  generalize fetchToFd job.url resumeFrom true env.world (fs.data ino) = fetched
  dsimp only
  generalize fs.setData ino fetched.bytes = fs2
  generalize hrelay : Counters.relayAll job env.sinceMs 0 _ (fetched.sent.take env.relayed) = relay
  refine ⟨relay.1, _, ?_, rfl, rfl, fun hall => ?_⟩
  rotate_left
  · rw [List.take_of_length_le hall] at hrelay
    rw [List.drop_of_length_le hall]
    exact ⟨by rw [hrelay], rfl, by simp [hrelay, Counters.relayAll]⟩
  generalize relay.1 = counters
  cases ht : env.transportError with
  | some text =>
    dsimp only
    split_ifs with hc
    · exact .canceled (.inl ⟨by simp [ht], hc⟩)
    · refine .failed _ _ ?_
      rintro (⟨-, h⟩ | ⟨h, -⟩)
      · exact hc h
      · rw [ht] at h
        cases h
  | none =>
    dsimp only
    cases hs : fetched.status with
    | none =>
      refine .waiting rfl ?_
      rintro (⟨h, -⟩ | ⟨-, code, message, h, -⟩)
      · exact h ht
      · cases h
    | some status =>
      cases status with
      | failure code message =>
        simp only [settle]
        split_ifs with hc
        · exact .canceled (.inr ⟨ht, code, message, rfl, hc⟩)
        · refine .failed _ _ ?_
          rintro (⟨h, -⟩ | ⟨-, code', message', h, hc'⟩)
          · exact h ht
          · cases h
            exact hc hc'
      | ok written =>
        refine .completed written rfl ?_
        rintro (⟨h, -⟩ | ⟨-, code, message, h, -⟩)
        · exact h ht
        · cases h

end Ways

section Spec

variable (job : Job) (env : Env)

theorem leftover_sameFiles {fs fs' : Fs} (h : fs.SameFiles fs') : leftover job fs' = leftover job fs := by
  rw [leftover, leftover, h.content]

theorem fail_leftover (counters : Counters) (fs : Fs) (code : ErrorCode) (message : Bytes) :
    leftover job (fail job env counters fs code message).fs = leftover job fs := by
  unfold fail
  dsimp only
  split_ifs with hz
  · rcases fs.unlink_cases job.partPath env.unlinkDenied with h | ⟨hr, h⟩
    · rw [h]
    · have hempty : leftover job fs = [] := by
        rw [Fs.fileSize_resolved hr] at hz
        exact List.eq_nil_of_length_eq_zero hz
      rw [h, hempty]
      simp [leftover, Fs.content, Fs.remove, Fs.relocate]
  · rfl

structure Opened (fs fs' : Fs) (ino : ℕ) : Prop where
  named : cStr job.partPath ≠ []
  cwd : fs'.cwd = fs.cwd
  file : fs'.node (locate fs.cwd job.partPath) = some (.file ino)
  data : fs'.data ino = leftover job fs
  size : fs.fileSize job.partPath = (leftover job fs).length

variable {job}

theorem openWrite_opened {fs fs' : Fs} {denied : Option Errno} {ino : ℕ}
    (h : fs.openWrite job.partPath denied = .ok (ino, fs')) : Opened job fs fs' ino := by
  obtain ⟨hr, ⟨hn, rfl⟩ | ⟨hn, rfl, rfl⟩⟩ := Fs.openWrite_ok h
  · exact ⟨Fs.resolve_ne hr, rfl, hn, by simp [leftover, Fs.content_file (Fs.resolve_ne hr) hn],
      Fs.fileSize_resolved hr⟩
  · exact ⟨Fs.resolve_ne hr, rfl, by simp [Fs.create], by simp [Fs.create, leftover, Fs.content, hn],
      Fs.fileSize_resolved hr⟩

theorem Opened.leftover_setData {fs fs' : Fs} {ino : ℕ} (h : Opened job fs fs' ino) (bs : Bytes) :
    leftover job (fs'.setData ino bs) = bs := by
  simp [leftover, Fs.content, Fs.setData, h.named, h.cwd, h.file]

theorem Opened.leftover {fs fs' : Fs} {ino : ℕ} (h : Opened job fs fs' ino) :
    leftover job fs' = DownloadService.leftover job fs := by
  rw [DownloadService.leftover, Fs.content, if_neg h.named, h.cwd, h.file]
  exact h.data

theorem content_part_nul (fs : Fs) (hnul : (0 : UInt8) ∈ job.destPath) :
    fs.content job.partPath = fs.content job.destPath := by
  rw [Fs.content, Fs.content, Job.partPath, locate_part_nul fs.cwd hnul, partOf, cStr_cut hnul]

theorem complete_spec (counters : Counters) (written : ℕ) {fs : Fs} {ino : ℕ}
    (h : fs.node (locate fs.cwd job.partPath) = some (.file ino)) :
    (complete job env counters written fs).state ≠ .completed ∧
        leftover job (complete job env counters written fs).fs = leftover job fs ∨
      (complete job env counters written fs).state = .completed ∧
        (complete job env counters written fs).fs.content job.destPath = some (leftover job fs) ∧
        ((complete job env counters written fs).fs.content job.partPath = none ∨
          (0 : UInt8) ∈ job.destPath ∧
            (complete job env counters written fs).fs.content job.partPath = some (leftover job fs)) := by
  unfold complete
  cases hr : fs.rename job.partPath job.destPath env.renameError with
  | error e =>
    refine .inl ⟨by simp [fail], ?_⟩
    dsimp only
    exact fail_leftover job env _ fs _ _
  | ok fs' =>
    have hold : fs.content job.partPath = some (fs.data ino) := Fs.content_file (Fs.rename_ne hr).1 h
    have hdest : fs'.content job.destPath = some (leftover job fs) := by
      rw [Fs.rename_content h hr, leftover, hold]
      rfl
    refine .inr ⟨rfl, hdest, ?_⟩
    dsimp only
    by_cases hnul : (0 : UInt8) ∈ job.destPath
    · exact .inr ⟨hnul, (content_part_nul fs' hnul).trans hdest⟩
    · have hne : locate fs.cwd job.partPath ≠ locate fs.cwd job.destPath :=
        locate_part_ne fs.cwd job.destPath job.dest_ne hnul
      rw [Fs.rename_ok h hr]
      exact .inl (by simp [Fs.content, Fs.moveFile, Fs.relocate, hne])

variable (job)

def fetchOf (fs : Fs) : Fetched := fetchToFd job.url (leftover job fs).length true env.world (leftover job fs)

inductive Transfers (fs : Fs) (out : Outcome) : Prop
  | stopped (state : out.state ≠ .completed) (part : leftover job out.fs = (fetchOf job env fs).bytes)
  | completed (state : out.state = .completed) (written : ℕ)
      (status : (fetchOf job env fs).status = some (.ok written))
      (dest : out.fs.content job.destPath = some (fetchOf job env fs).bytes)
      (part : out.fs.content job.partPath = none ∨
        (0 : UInt8) ∈ job.destPath ∧ out.fs.content job.partPath = some (fetchOf job env fs).bytes)

inductive Ends (fs : Fs) (out : Outcome) : Prop
  | untouched (state : out.state ≠ .completed) (part : leftover job out.fs = leftover job fs)
  | transferred (h : Transfers job env fs out)

variable {job}

theorem transfer_ends {fs fs' : Fs} {ino : ℕ} (h : Opened job fs fs' ino) :
    Transfers job env fs (transfer job env (fs.fileSize job.partPath) ino fs') := by
  have hfetch : fetchToFd job.url (fs.fileSize job.partPath) true env.world (fs'.data ino) = fetchOf job env fs := by
    rw [h.size, h.data]
    rfl
  have hpart := h.leftover_setData (fetchOf job env fs).bytes
  obtain ⟨counters, out, hout, hstate, hfs, -⟩ := transfer_replies job env (fs.fileSize job.partPath) ino fs'
  rw [hfetch] at hout
  cases hout with
  | waiting reply goes => exact .stopped (by simp [hstate]) (by rw [hfs, hpart])
  | canceled aborts => exact .stopped (by simp [hstate, cancelDone]) (by rw [hfs, cancelDone, hpart])
  | failed code message goes =>
    refine .stopped (by simp [hstate, fail]) ?_
    rw [hfs, fail_leftover, hpart]
  | completed written reply goes =>
    have hnode : (fs'.setData ino (fetchOf job env fs).bytes).node
        (locate (fs'.setData ino (fetchOf job env fs).bytes).cwd job.partPath) = some (.file ino) := by
      simp [Fs.setData, h.cwd, h.file]
    rcases complete_spec env counters written hnode with ⟨hstop, hleft⟩ | ⟨hdone, hdest, hgone⟩
    · exact .stopped (hstate ▸ hstop) (by rw [hfs, hleft, hpart])
    · rw [hpart, ← hfs] at hdest hgone
      exact .completed (hstate.trans hdone) written reply hdest hgone

theorem fail_ends (counters : Counters) {fs fs' : Fs} (code : ErrorCode) (message : Bytes)
    (h : leftover job fs' = leftover job fs) : Ends job env fs (fail job env counters fs' code message) :=
  .untouched (by simp [fail]) ((fail_leftover job env counters fs' code message).trans h)

variable {env}

theorem Transfers.congr {fs fs' : Fs} {out : Outcome} (h : Transfers job env fs' out)
    (hpart : leftover job fs' = leftover job fs) : Transfers job env fs out := by
  have hfetch : fetchOf job env fs' = fetchOf job env fs := by
    rw [fetchOf, fetchOf, hpart]
  cases h with
  | stopped state part => exact .stopped state (hfetch ▸ part)
  | completed state written status dest part =>
    exact .completed state written (hfetch ▸ status) (hfetch ▸ dest) (hfetch ▸ part)

theorem Ends.congr {fs fs' : Fs} {out : Outcome} (h : Ends job env fs' out)
    (hpart : leftover job fs' = leftover job fs) : Ends job env fs out := by
  cases h with
  | untouched state part => exact .untouched state (part.trans hpart)
  | transferred h => exact .transferred (h.congr hpart)

theorem runTask_ends (job : Job) (env : Env) (fs : Fs) : Ends job env fs (runTask job env fs) := by
  have hsame := leftover_sameFiles job (ensureParentDir_sameFiles job.destPath env.mkdirError fs)
  have hways := runTask_attempts job env fs
  generalize runTask job env fs = out at hways ⊢
  cases hways with
  | parentless error parent =>
    rw [parent] at hsame
    exact fail_ends env _ _ _ hsame
  | unopened counters message parent opened =>
    rw [parent] at hsame
    exact fail_ends env _ _ _ hsame
  | failed counters code message parent opened cause =>
    rw [parent] at hsame
    exact fail_ends env _ _ _ ((openWrite_opened opened).leftover.trans hsame)
  | canceled counters parent opened http requestId early =>
    rw [parent] at hsame
    exact .untouched (by simp [cancelDone]) ((openWrite_opened opened).leftover.trans hsame)
  | transferred parent opened http requestId early dup =>
    rw [parent] at hsame
    exact Ends.congr (.transferred (transfer_ends env (openWrite_opened opened))) hsame

variable (job env)

theorem fail_sameDirs (counters : Counters) (fs : Fs) (code : ErrorCode) (message : Bytes) :
    fs.SameDirs (fail job env counters fs code message).fs := by
  unfold fail
  dsimp only
  split_ifs
  · exact fs.unlink_sameDirs _ _
  · exact .refl fs

variable {job}

theorem complete_sameDirs (counters : Counters) (written : ℕ) {fs : Fs} {ino : ℕ}
    (h : fs.node (locate fs.cwd job.partPath) = some (.file ino)) :
    fs.SameDirs (complete job env counters written fs).fs := by
  unfold complete
  cases hr : fs.rename job.partPath job.destPath env.renameError with
  | error e => exact fail_sameDirs job env _ fs _ _
  | ok fs' => exact Fs.rename_sameDirs h hr

theorem transfer_sameDirs {fs fs' : Fs} {ino : ℕ} (resumeFrom : ℕ) (h : Opened job fs fs' ino) :
    fs'.SameDirs (transfer job env resumeFrom ino fs').fs := by
  obtain ⟨counters, out, hout, -, hfs, -⟩ := transfer_replies job env resumeFrom ino fs'
  rw [hfs]
  generalize fetchToFd job.url resumeFrom true env.world (fs'.data ino) = fetched at hout
  refine (fs'.setData_sameDirs ino fetched.bytes).trans ?_
  cases hout with
  | waiting reply goes => exact .refl _
  | canceled aborts => exact .refl _
  | failed code message goes => exact fail_sameDirs job env _ _ _ _
  | completed written reply goes =>
    refine @complete_sameDirs job env _ written _ ino ?_
    simp [Fs.setData, h.cwd, h.file]

theorem runTask_sameDirs (job : Job) (env : Env) (fs : Fs) :
    (ensureParentDir job.destPath env.mkdirError fs).2.SameDirs (runTask job env fs).fs := by
  have hways := runTask_attempts job env fs
  generalize runTask job env fs = out at hways ⊢
  cases hways with
  | parentless error parent =>
    rw [parent]
    exact fail_sameDirs job env _ _ _ _
  | unopened counters message parent opened =>
    rw [parent]
    exact fail_sameDirs job env _ _ _ _
  | failed counters code message parent opened cause =>
    rw [parent]
    exact (Fs.openWrite_sameDirs opened).trans (fail_sameDirs job env _ _ _ _)
  | canceled counters parent opened http requestId early =>
    rw [parent]
    exact Fs.openWrite_sameDirs opened
  | transferred parent opened http requestId early dup =>
    rw [parent]
    exact (Fs.openWrite_sameDirs opened).trans (transfer_sameDirs env _ (openWrite_opened opened))

variable {env}

structure Env.Quiet (env : Env) : Prop where
  openError : env.openError = none
  httpError : env.httpError = none
  requestIdError : env.requestIdError = none
  canceledBefore : env.canceledBefore = false
  dupError : env.dupError = none
  transportError : env.transportError = none
  renameError : env.renameError = none
  descriptor : env.world.descriptor = true
  seekError : env.world.seekError = none
  truncateError : env.world.truncateError = none
  writes : Steady env.world.writes

structure Unhindered (job : Job) (env : Env) (fs : Fs) : Prop extends env.Quiet where
  parent : (ensureParentDir job.destPath env.mkdirError fs).1 = none
  part : (ensureParentDir job.destPath env.mkdirError fs).2.resolve job.partPath = .ok (locate fs.cwd job.partPath)
  part_file : (ensureParentDir job.destPath env.mkdirError fs).2.isDir (locate fs.cwd job.partPath) = false
  dest : (ensureParentDir job.destPath env.mkdirError fs).2.resolve job.destPath = .ok (locate fs.cwd job.destPath)
  dest_file : (ensureParentDir job.destPath env.mkdirError fs).2.isDir (locate fs.cwd job.destPath) = false

theorem ensureParentDir_name (path : Bytes) (denied : Bytes → Option Errno) (fs : Fs) (h : 47 ∉ path) :
    ensureParentDir path denied fs = (none, fs) := by
  have hnone : rfind 47 path = none := by
    rw [rfind, find_none 47 _ (by simpa using h)]
    rfl
  simp only [ensureParentDir, hnone]

theorem Env.Quiet.unhindered (h : env.Quiet) (fs : Fs) (hname : 47 ∉ job.destPath) (hplain : (0 : UInt8) ∉ job.destPath)
    (hpart : fs.isDir (locate fs.cwd job.partPath) = false) (hdest : fs.isDir (locate fs.cwd job.destPath) = false) :
    Unhindered job env fs := by
  have hparent := ensureParentDir_name job.destPath env.mkdirError fs hname
  have hpartName : 47 ∉ job.partPath := by
    simp only [Job.partPath, partOf, List.mem_append, not_or]
    exact ⟨hname, by decide⟩
  have hpartNe : cStr job.partPath ≠ [] := by
    rw [Job.partPath, partOf, cStr_append hplain]
    simp [job.dest_ne]
  refine ⟨h, ?_, ?_, ?_, ?_, ?_⟩
  · rw [hparent]
  · rw [hparent]
    exact fs.resolve_name _ hpartName hpartNe
  · rw [hparent]
    exact hpart
  · rw [hparent]
    exact fs.resolve_name _ hname (by rw [cStr_plain hplain]; exact job.dest_ne)
  · rw [hparent]
    exact hdest

theorem transfer_completes {fs fs' : Fs} {ino n : ℕ} (hopen : fs.openWrite job.partPath none = .ok (ino, fs'))
    (ht : env.transportError = none) (hr : env.renameError = none)
    (hpart : fs.resolve job.partPath = .ok (locate fs.cwd job.partPath))
    (hdest : fs.resolve job.destPath = .ok (locate fs.cwd job.destPath))
    (hdir : fs.isDir (locate fs.cwd job.destPath) = false) (hstatus : (fetchOf job env fs).status = some (.ok n)) :
    (transfer job env (fs.fileSize job.partPath) ino fs').state = .completed := by
  have h := openWrite_opened hopen
  have hfetch : fetchToFd job.url (fs.fileSize job.partPath) true env.world (fs'.data ino) = fetchOf job env fs := by
    rw [h.size, h.data]
    rfl
  generalize hafter : fs'.setData ino (fetchOf job env fs).bytes = fs2
  have hdirs : fs.SameDirs fs2 := by
    rw [← hafter]
    exact (Fs.openWrite_sameDirs hopen).trans (Fs.setData_sameDirs fs' ino _)
  have hfile : fs2.node (locate fs2.cwd job.partPath) = some (.file ino) := by
    rw [hdirs.cwd, ← hafter]
    exact h.file
  obtain ⟨fs3, hrename⟩ := Fs.rename_succeeds (hdirs.resolve hpart) (hdirs.resolve hdest) hfile
    (by rw [hdirs.cwd, hdirs.isDir, hdir])
  unfold transfer
  rw [hfetch]
  simp only [ht, hstatus, settle, complete, hafter, hr, hrename]

theorem runTask_unhindered {fs : Fs} (h : Unhindered job env fs) :
    Transfers job env fs (runTask job env fs) ∧
      ∀ n, (fetchOf job env fs).status = some (.ok n) → (runTask job env fs).state = .completed := by
  have hsame := ensureParentDir_sameFiles job.destPath env.mkdirError fs
  have hparent := h.parent
  have hpart := h.part
  have hpartFile := h.part_file
  have hdest := h.dest
  have hdestFile := h.dest_file
  rcases hp : ensureParentDir job.destPath env.mkdirError fs with ⟨error, fs1⟩
  rw [hp] at hparent hsame hpart hpartFile hdest hdestFile
  obtain rfl : error = none := hparent
  have hleft := leftover_sameFiles job hsame
  simp only [← hsame.cwd] at hpart hpartFile hdest hdestFile
  obtain ⟨ino, fs2, hopen⟩ := Fs.openWrite_succeeds hpart hpartFile
  rw [runTask_transfer hp (h.openError ▸ hopen) h.httpError h.requestIdError h.canceledBefore h.dupError]
  refine ⟨(transfer_ends env (openWrite_opened hopen)).congr hleft, fun n hstatus => ?_⟩
  have hstatus' : (fetchOf job env fs1).status = some (.ok n) := by
    rw [fetchOf, show leftover job fs1 = leftover job fs from hleft]
    exact hstatus
  exact transfer_completes hopen h.transportError h.renameError hpart hdest hdestFile hstatus'

end Spec

end BinderDownload.DownloadService
