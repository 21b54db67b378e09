import BinderDownload.Service.Destination

namespace BinderDownload.DownloadService

open Text Files HttpService

/-- The path names nothing, or a file that is not empty. A directory there is neither, and by `directory_fails` no
attempt resumes from it. -/
def Tidy (fs : Fs) (path : Bytes) : Prop :=
  ∀ loc, fs.resolve path = .ok loc →
    fs.isDir loc = false ∧ (fs.node loc = none ∨ ∃ ino, fs.node loc = some (.file ino) ∧ fs.data ino ≠ [])

section Tidy

variable (job : Job) (env : Env) {fs fs' : Fs} {ino : ℕ}

variable {job}

theorem leftover_content {bs : Bytes} (h : leftover job fs = bs) (hne : bs ≠ []) :
    fs.content job.partPath = some bs := by
  unfold leftover at h
  cases hc : fs.content job.partPath with
  | none =>
    rw [hc] at h
    exact absurd h.symm hne
  | some bytes =>
    rw [hc] at h
    rw [← h]
    rfl

theorem tidy_iff (hr : fs.resolve job.partPath = .ok (locate fs.cwd job.partPath))
    (hdir : fs.isDir (locate fs.cwd job.partPath) = false)
    (hfile : fs.node (locate fs.cwd job.partPath) = some (.file ino)) :
    Tidy fs job.partPath ↔ leftover job fs ≠ [] := by
  have hleft : leftover job fs = fs.data ino := by simp [leftover, Fs.content_file (Fs.resolve_ne hr) hfile]
  rw [hleft]
  constructor
  · intro h hempty
    rcases (h _ hr).2 with hnone | ⟨i, hi, hne⟩
    · rw [hfile] at hnone
      cases hnone
    · rw [hfile] at hi
      cases hi
      exact hne hempty
  · intro hne loc hloc
    rw [hr] at hloc
    cases hloc
    exact ⟨hdir, .inr ⟨ino, hfile, hne⟩⟩

theorem fail_tidy (hunlink : env.unlinkDenied = false) (hdir : ¬fs.NamesDir job.partPath) (counters : Counters)
    (code : ErrorCode) (message : Bytes) : Tidy (fail job env counters fs code message).fs job.partPath := by
  intro loc hloc
  have hr := (fail_sameDirs job env counters fs code message).symm.resolve (Fs.resolve_ok hloc ▸ hloc)
  have hsame := fail_sameDirs job env counters fs code message
  obtain rfl := Fs.resolve_ok hloc
  rw [hsame.cwd]
  refine ⟨?_, ?_⟩
  · rw [hsame.isDir]
    by_contra hd
    exact hdir ⟨_, hr, by simpa using hd⟩
  unfold fail
  dsimp only
  rcases hn : fs.node (locate fs.cwd job.partPath) with _ | _ | ino
  · left
    split_ifs
    · simp [Fs.unlink, hr, hn]
    · exact hn
  · exact absurd ⟨_, hr, by simp [Fs.isDir, hn]⟩ hdir
  · split_ifs with hsize
    · left
      simp [Fs.unlink, hr, hn, hunlink, Fs.remove, Fs.relocate]
    · right
      refine ⟨ino, hn, fun hempty => hsize ?_⟩
      simp [Fs.fileSize, hr, hn, hempty]

end Tidy

section Litter

variable (job : Job) (env : Env) (fs : Fs)

structure Asked : Prop where
  parent : (ensureParentDir job.destPath env.mkdirError fs).1 = none
  opened : ∃ p, (ensureParentDir job.destPath env.mkdirError fs).2.openWrite job.partPath env.openError = .ok p
  http : env.httpError = none
  requestId : env.requestIdError = none

structure Fetching : Prop extends Asked job env fs where
  early : env.canceledBefore = false
  dup : env.dupError = none

/-- A cancel is answered while there are no bytes in the `.part` file. -/
def CanceledEmpty : Prop :=
  Asked job env fs ∧ env.canceledBefore = true ∧ leftover job fs = [] ∨
    Fetching job env fs ∧ env.Aborts (fetchOf job env fs).status ∧ (fetchOf job env fs).bytes = []

structure Tidied : Prop where
  part : Tidy (runTask job env fs).fs job.partPath
  fetched : Fetching job env fs → (fetchOf job env fs).bytes ≠ [] →
    (runTask job env fs).fs.content job.partPath = some (fetchOf job env fs).bytes
  unfetched : ¬Fetching job env fs → leftover job fs ≠ [] →
    (runTask job env fs).fs.content job.partPath = some (leftover job fs)

variable {job env fs}

theorem asked_of {fs1 fs2 : Fs} {ino : ℕ} (parent : ensureParentDir job.destPath env.mkdirError fs = (none, fs1))
    (opened : fs1.openWrite job.partPath env.openError = .ok (ino, fs2)) (http : env.httpError = none)
    (requestId : env.requestIdError = none) : Asked job env fs :=
  ⟨by rw [parent], ⟨_, by rw [parent]; exact opened⟩, http, requestId⟩

theorem parentless_unasked {fs1 : Fs} {error : Bytes}
    (parent : ensureParentDir job.destPath env.mkdirError fs = (some error, fs1)) : ¬Asked job env fs := by
  intro h
  have hparent := h.parent
  rw [parent] at hparent
  cases hparent

theorem unopened_unasked {fs1 : Fs} {e : Errno} (parent : ensureParentDir job.destPath env.mkdirError fs = (none, fs1))
    (opened : fs1.openWrite job.partPath env.openError = .error e) : ¬Asked job env fs := by
  intro h
  obtain ⟨p, hp⟩ := h.opened
  rw [parent, opened] at hp
  cases hp

theorem failed_unfetched
    (cause : env.httpError ≠ none ∨ env.requestIdError ≠ none ∨ env.canceledBefore = false ∧ env.dupError ≠ none) :
    ¬Fetching job env fs := by
  intro h
  rcases cause with hc | hc | ⟨-, hc⟩
  · exact hc h.http
  · exact hc h.requestId
  · exact hc h.dup

theorem canceled_unfetched (early : env.canceledBefore = true) : ¬Fetching job env fs := by
  intro h
  have hearly := h.early
  rw [early] at hearly
  cases hearly

inductive Remains (job : Job) (env : Env) (fs : Fs) (out : Outcome) : Prop
  | failed {before : Fs} (counters : Counters) (code : ErrorCode) (message : Bytes) (state : out.state = .failed)
      (cleaned : out.fs = (fail job env counters before code message).fs)
      (dirs : (ensureParentDir job.destPath env.mkdirError fs).2.SameDirs before)
      (fetched : Fetching job env fs → leftover job before = (fetchOf job env fs).bytes)
      (unfetched : ¬Fetching job env fs → leftover job before = leftover job fs) (goes : ¬CanceledEmpty job env fs)
  | canceled {left : Fs} {ino : ℕ} (state : out.state = .canceled) (stays : out.fs = left)
      (resolved : left.resolve job.partPath = .ok (locate left.cwd job.partPath))
      (plain : left.isDir (locate left.cwd job.partPath) = false)
      (file : left.node (locate left.cwd job.partPath) = some (.file ino))
      (fetched : Fetching job env fs → leftover job left = (fetchOf job env fs).bytes)
      (unfetched : ¬Fetching job env fs → leftover job left = leftover job fs)
      (empty : leftover job left = [] ↔ CanceledEmpty job env fs)
  | other (failed : out.state ≠ .failed) (canceled : out.state ≠ .canceled) (goes : ¬CanceledEmpty job env fs)
      (file : ¬(ensureParentDir job.destPath env.mkdirError fs).2.NamesDir job.partPath)

theorem CanceledEmpty.asked (h : CanceledEmpty job env fs) : Asked job env fs := by
  rcases h with ⟨h, -⟩ | ⟨h, -⟩
  · exact h
  · exact h.toAsked

theorem opened_not_dir {fs1 fs2 : Fs} {ino : ℕ} (opened : fs1.openWrite job.partPath env.openError = .ok (ino, fs2)) :
    ¬fs1.NamesDir job.partPath := by
  rintro ⟨loc, hr, hdir⟩
  obtain rfl := Fs.resolve_ok hr
  rw [Fs.openWrite_not_dir opened] at hdir
  cases hdir

theorem leftover_parent {fs1 : Fs} (parent : ensureParentDir job.destPath env.mkdirError fs = (none, fs1)) :
    leftover job fs1 = leftover job fs := by
  have h := leftover_sameFiles job (ensureParentDir_sameFiles job.destPath env.mkdirError fs)
  rwa [parent] at h

theorem fetchOf_opened {fs1 fs2 : Fs} {ino : ℕ} (parent : ensureParentDir job.destPath env.mkdirError fs = (none, fs1))
    (opened : fs1.openWrite job.partPath env.openError = .ok (ino, fs2)) :
    fetchToFd job.url (fs1.fileSize job.partPath) true env.world (fs2.data ino) = fetchOf job env fs := by
  have h := openWrite_opened opened
  rw [h.size, h.data, leftover_parent parent]
  rfl

theorem transfer_remains {fs1 fs2 : Fs} {ino : ℕ} (hfetching : Fetching job env fs)
    (parent : ensureParentDir job.destPath env.mkdirError fs = (none, fs1))
    (opened : fs1.openWrite job.partPath env.openError = .ok (ino, fs2)) :
    Remains job env fs (transfer job env (fs1.fileSize job.partPath) ino fs2) := by
  have h := openWrite_opened opened
  have hpart := h.leftover_setData (fetchOf job env fs).bytes
  have hdirs : fs1.SameDirs (fs2.setData ino (fetchOf job env fs).bytes) :=
    (Fs.openWrite_sameDirs opened).trans (Fs.setData_sameDirs fs2 ino _)
  have hopen : (fs2.setData ino (fetchOf job env fs).bytes).node
      (locate (fs2.setData ino (fetchOf job env fs).bytes).cwd job.partPath) = some (.file ino) := by
    simp [Fs.setData, h.cwd, h.file]
  have hfile : ¬(ensureParentDir job.destPath env.mkdirError fs).2.NamesDir job.partPath := by
    rw [parent]
    exact opened_not_dir opened
  have hstays (goes : ¬env.Aborts (fetchOf job env fs).status) : ¬CanceledEmpty job env fs := by
    rintro (⟨-, hearly, -⟩ | ⟨-, haborts, -⟩)
    · rw [hfetching.early] at hearly
      cases hearly
    · exact goes haborts
  have hfail {out : Outcome} (counters : Counters) (code : ErrorCode) (message : Bytes)
      (goes : ¬env.Aborts (fetchOf job env fs).status) (hstate : out.state = .failed)
      (hfs : out.fs = (fail job env counters (fs2.setData ino (fetchOf job env fs).bytes) code message).fs) :
      Remains job env fs out :=
    .failed counters code message hstate hfs (parent ▸ hdirs) (fun _ => hpart) (fun hno => absurd hfetching hno)
      (hstays goes)
  obtain ⟨counters, out, hout, hstate, hfs, -⟩ := transfer_replies job env (fs1.fileSize job.partPath) ino fs2
  rw [fetchOf_opened parent opened] at hout
  cases hout with
  | waiting reply goes => exact .other (by simp [hstate]) (by simp [hstate]) (hstays goes) hfile
  | canceled aborts =>
    refine .canceled (by simp [hstate, cancelDone]) hfs (hdirs.resolve (Fs.openWrite_ok opened).1)
      (by rw [cancelDone, hdirs.cwd, hdirs.isDir, Fs.openWrite_not_dir opened]) hopen
      (fun _ => hpart) (fun hno => absurd hfetching hno) ?_
    simp only [cancelDone]
    rw [hpart]
    constructor
    · intro hempty
      exact .inr ⟨hfetching, aborts, hempty⟩
    · rintro (⟨-, hearly, -⟩ | ⟨-, -, hempty⟩)
      · rw [hfetching.early] at hearly
        cases hearly
      · exact hempty
  | failed code message goes => exact hfail counters code message goes (by simp [hstate, fail]) hfs
  | completed written reply goes =>
    unfold complete at hstate hfs
    cases hr : (fs2.setData ino (fetchOf job env fs).bytes).rename job.partPath job.destPath env.renameError with
    | error e =>
      simp only [hr] at hstate hfs
      exact hfail _ _ _ goes (by simp [hstate, fail]) hfs
    | ok fs3 =>
      simp only [hr] at hstate
      exact .other (by simp [hstate]) (by simp [hstate]) (hstays goes) hfile

theorem runTask_remains (job : Job) (env : Env) (fs : Fs) : Remains job env fs (runTask job env fs) := by
  have hways := runTask_attempts job env fs
  generalize runTask job env fs = out at hways ⊢
  cases hways with
  | parentless error parent =>
    have hno : ¬Asked job env fs := parentless_unasked parent
    refine .failed _ _ _ rfl rfl (parent ▸ .refl _) (fun h => absurd h.toAsked hno) (fun _ => ?_)
      (fun h => hno h.asked)
    have h := leftover_sameFiles job (ensureParentDir_sameFiles job.destPath env.mkdirError fs)
    rwa [parent] at h
  | unopened counters message parent opened =>
    have hno : ¬Asked job env fs := unopened_unasked parent opened
    exact .failed _ _ _ rfl rfl (parent ▸ .refl _) (fun h => absurd h.toAsked hno) (fun _ => leftover_parent parent)
      (fun h => hno h.asked)
  | failed counters code message parent opened cause =>
    have hno : ¬Fetching job env fs := failed_unfetched cause
    refine .failed _ _ _ rfl rfl (parent ▸ Fs.openWrite_sameDirs opened) (fun h => absurd h hno)
      (fun _ => (openWrite_opened opened).leftover.trans (leftover_parent parent)) ?_
    rintro (⟨h, hearly, -⟩ | ⟨h, -⟩)
    · rcases cause with hc | hc | ⟨hc, -⟩
      · exact hc h.http
      · exact hc h.requestId
      · rw [hearly] at hc
        cases hc
    · exact hno h
  | canceled counters parent opened http requestId early =>
    have hno : ¬Fetching job env fs := canceled_unfetched early
    have h := openWrite_opened opened
    have hleft := h.leftover.trans (leftover_parent parent)
    have hdirs := Fs.openWrite_sameDirs opened
    refine .canceled rfl rfl (hdirs.resolve (Fs.openWrite_ok opened).1)
      (by rw [cancelDone, hdirs.cwd, hdirs.isDir, Fs.openWrite_not_dir opened]) (h.cwd.symm ▸ h.file)
      (fun hf => absurd hf hno) (fun _ => hleft) ?_
    simp only [cancelDone]
    rw [hleft]
    constructor
    · intro hempty
      exact .inl ⟨asked_of parent opened http requestId, early, hempty⟩
    · rintro (⟨-, -, hempty⟩ | ⟨hf, -⟩)
      · exact hempty
      · exact absurd hf hno
  | transferred parent opened http requestId early dup =>
    exact transfer_remains ⟨asked_of parent opened http requestId, early, dup⟩ parent opened

end Litter

end BinderDownload.DownloadService
