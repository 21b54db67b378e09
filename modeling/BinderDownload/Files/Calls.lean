import BinderDownload.Files.Fs

namespace BinderDownload.Files

open Text

namespace Fs

def mkdir (fs : Fs) (path : Bytes) (denied : Option Errno) : Except Errno Fs :=
  if cStr path = [] then .error .enoent
  else match fs.walk (start fs.cwd path) (targetNames path) with
    | .error e => .error e
    | .ok loc =>
      if fs.isDir loc ∨ fs.node loc ≠ none then .error .eexist
      else match denied with
        | some e => .error e
        | none => .ok (fs.createDir loc)

/-- `open` for writing, with the creation of a missing file and without truncation. -/
def openWrite (fs : Fs) (path : Bytes) (denied : Option Errno) : Except Errno (ℕ × Fs) :=
  match fs.resolve path with
  | .error e => .error e
  | .ok loc =>
    match denied with
    | some e => .error e
    | none =>
      if fs.isDir loc then .error .eisdir
      else match fs.node loc with
        | some (.file ino) => .ok (ino, fs)
        | _ => .ok (fs.fresh, fs.create loc)

def unlink (fs : Fs) (path : Bytes) (denied : Bool) : Fs :=
  match fs.resolve path with
  | .error _ => fs
  | .ok loc =>
    match fs.node loc with
    | some (.file _) => if denied then fs else fs.remove loc
    | _ => fs

def rename (fs : Fs) (oldPath newPath : Bytes) (denied : Option Errno) : Except Errno Fs :=
  match fs.resolve oldPath, fs.resolve newPath with
  | .error e, _ => .error e
  | .ok _, .error e => .error e
  | .ok src, .ok dest =>
    match denied with
    | some e => .error e
    | none =>
      match fs.node src with
      | none => .error .enoent
      | some (.file _) => if fs.isDir dest then .error .eisdir else .ok (fs.moveFile src dest)
      | some .dir =>
        if src = dest then .ok fs
        else if src <+: dest then .error .einval
        else if fs.isDir dest then if fs.isEmpty dest then .ok (fs.moveDir src dest) else .error .enotempty
        else if fs.node dest = none then .ok (fs.moveDir src dest)
        else .error .enotdir

theorem resolve_cStr (fs : Fs) (path : Bytes) : fs.resolve (cStr path) = fs.resolve path := by
  unfold resolve
  rw [cStr_cStr]
  split_ifs with h
  · rfl
  · rw [start_cStr fs.cwd h]

theorem mkdir_cStr (fs : Fs) (path : Bytes) (denied : Option Errno) :
    fs.mkdir (cStr path) denied = fs.mkdir path denied := by
  unfold mkdir targetNames
  rw [cStr_cStr]
  split_ifs with h
  · rfl
  · rw [start_cStr fs.cwd h]

theorem content_file {fs : Fs} {path : Bytes} {ino : ℕ} (hne : cStr path ≠ [])
    (h : fs.node (locate fs.cwd path) = some (.file ino)) : fs.content path = some (fs.data ino) := by
  rw [content, if_neg hne, h]

theorem fileSize_resolved {fs : Fs} {path : Bytes} {loc : Loc} (h : fs.resolve path = .ok loc) :
    fs.fileSize path = ((fs.content path).getD []).length := by
  simp only [fileSize, content, h, ← resolve_ok h, if_neg (resolve_ne h)]
  rcases fs.node loc with _ | _ | ino <;> rfl

theorem walk_isDir {fs fs' : Fs} (hdir : ∀ loc, fs.isDir loc = true → fs'.isDir loc = true) {loc loc' : Loc}
    {names : List Bytes} (h : fs.walk loc names = .ok loc') : fs'.walk loc names = .ok loc' := by
  fun_induction walk fs loc names with
  | case1 loc => exact h
  | case2 loc name => exact h
  | case3 loc name name' names next hd ih =>
    rw [walk, if_pos (hdir _ hd)]
    exact ih h
  | case4 loc name name' names next hd => cases h

structure SameFiles (fs fs' : Fs) : Prop where
  cwd : fs'.cwd = fs.cwd
  data : fs'.data = fs.data
  file : ∀ loc ino, fs'.node loc = some (.file ino) ↔ fs.node loc = some (.file ino)

namespace SameFiles

variable {fs fs' fs'' : Fs}

theorem refl (fs : Fs) : SameFiles fs fs := ⟨rfl, rfl, fun _ _ => Iff.rfl⟩

theorem trans (h : SameFiles fs fs') (h' : SameFiles fs' fs'') : SameFiles fs fs'' :=
  ⟨h'.cwd.trans h.cwd, h'.data.trans h.data, fun loc ino => (h'.file loc ino).trans (h.file loc ino)⟩

theorem content (h : SameFiles fs fs') (path : Bytes) : fs'.content path = fs.content path := by
  have hfile := h.file (locate fs.cwd path)
  unfold Fs.content
  split_ifs
  · rfl
  rw [h.cwd, h.data]
  rcases hn : fs.node (locate fs.cwd path) with _ | _ | ino
  · rcases hn' : fs'.node (locate fs.cwd path) with _ | _ | ino
    · rfl
    · rfl
    · rw [hfile ino, hn] at hn'
      cases hn'
  · rcases hn' : fs'.node (locate fs.cwd path) with _ | _ | ino
    · rfl
    · rfl
    · rw [hfile ino, hn] at hn'
      cases hn'
  · rw [(hfile ino).mpr hn]

end SameFiles

theorem mkdir_sameFiles {fs fs' : Fs} {path : Bytes} {denied : Option Errno} (h : fs.mkdir path denied = .ok fs') :
    SameFiles fs fs' := by
  unfold mkdir at h
  split_ifs at h
  cases hr : fs.walk (start fs.cwd path) (targetNames path) with
  | error e => simp [hr] at h
  | ok loc =>
    simp only [hr] at h
    split_ifs at h with hex
    cases denied with
    | some e => simp at h
    | none =>
      simp only [Except.ok.injEq] at h
      subst h
      have hfree : fs.node loc = none := by
        by_contra hne
        exact hex (.inr hne)
      refine ⟨rfl, rfl, fun l ino => ?_⟩
      by_cases hl : l = loc
      · simp [createDir, hl, hfree]
      · simp [createDir, Function.update_of_ne hl]

theorem openWrite_ok {fs fs' : Fs} {path : Bytes} {denied : Option Errno} {ino : ℕ}
    (h : fs.openWrite path denied = .ok (ino, fs')) :
    fs.resolve path = .ok (locate fs.cwd path) ∧
      (fs.node (locate fs.cwd path) = some (.file ino) ∧ fs' = fs ∨
        fs.node (locate fs.cwd path) = none ∧ ino = fs.fresh ∧ fs' = fs.create (locate fs.cwd path)) := by
  unfold openWrite at h
  cases hr : fs.resolve path with
  | error e => simp [hr] at h
  | ok loc =>
    obtain rfl := resolve_ok hr
    simp only [hr] at h
    cases denied with
    | some e => simp at h
    | none =>
      simp only at h
      split_ifs at h with hdir
      refine ⟨rfl, ?_⟩
      rcases hn : fs.node (locate fs.cwd path) with _ | _ | i
      · simp only [hn, Except.ok.injEq, Prod.mk.injEq] at h
        exact .inr ⟨rfl, h.1.symm, h.2.symm⟩
      · simp [isDir, hn] at hdir
      · simp only [hn, Except.ok.injEq, Prod.mk.injEq] at h
        exact .inl ⟨by rw [h.1], h.2.symm⟩

theorem openWrite_not_dir {fs : Fs} {path : Bytes} {denied : Option Errno} {p : ℕ × Fs}
    (h : fs.openWrite path denied = .ok p) : fs.isDir (locate fs.cwd path) = false := by
  unfold openWrite at h
  cases hr : fs.resolve path with
  | error e => simp [hr] at h
  | ok loc =>
    obtain rfl := resolve_ok hr
    cases denied with
    | some e => simp [hr] at h
    | none =>
      simp only [hr] at h
      split_ifs at h with hdir
      simpa using hdir

theorem openWrite_succeeds {fs : Fs} {path : Bytes} (hr : fs.resolve path = .ok (locate fs.cwd path))
    (hdir : fs.isDir (locate fs.cwd path) = false) : ∃ ino fs', fs.openWrite path none = .ok (ino, fs') := by
  simp only [openWrite, hr, hdir, Bool.false_eq_true, if_false]
  split
  · exact ⟨_, _, rfl⟩
  · exact ⟨_, _, rfl⟩

theorem rename_succeeds {fs : Fs} {oldPath newPath : Bytes} {ino : ℕ}
    (hold : fs.resolve oldPath = .ok (locate fs.cwd oldPath)) (hnew : fs.resolve newPath = .ok (locate fs.cwd newPath))
    (hfile : fs.node (locate fs.cwd oldPath) = some (.file ino)) (hdir : fs.isDir (locate fs.cwd newPath) = false) :
    ∃ fs', fs.rename oldPath newPath none = .ok fs' := by
  simp only [rename, hold, hnew, hfile, hdir, Bool.false_eq_true, if_false]
  exact ⟨_, rfl⟩

theorem unlink_cases (fs : Fs) (path : Bytes) (denied : Bool) :
    fs.unlink path denied = fs ∨
      fs.resolve path = .ok (locate fs.cwd path) ∧ fs.unlink path denied = fs.remove (locate fs.cwd path) := by
  unfold unlink
  cases hr : fs.resolve path with
  | error e => exact .inl rfl
  | ok loc =>
    obtain rfl := resolve_ok hr
    rcases hn : fs.node (locate fs.cwd path) with _ | _ | ino
    · simp [hn]
    · simp [hn]
    · simp only [hn]
      split_ifs
      · exact .inl rfl
      · exact .inr ⟨trivial, rfl⟩

theorem rename_ne {fs fs' : Fs} {oldPath newPath : Bytes} {denied : Option Errno}
    (h : fs.rename oldPath newPath denied = .ok fs') : cStr oldPath ≠ [] ∧ cStr newPath ≠ [] := by
  unfold rename at h
  cases hr : fs.resolve oldPath with
  | error e => simp [hr] at h
  | ok src =>
    cases hd : fs.resolve newPath with
    | error e => simp [hr, hd] at h
    | ok dest => exact ⟨resolve_ne hr, resolve_ne hd⟩

theorem rename_denied {fs fs' : Fs} {oldPath newPath : Bytes} {e : Errno} :
    fs.rename oldPath newPath (some e) ≠ .ok fs' := by
  unfold rename
  rcases fs.resolve oldPath with _ | src <;> rcases fs.resolve newPath with _ | dest <;> simp

theorem rename_ok {fs fs' : Fs} {oldPath newPath : Bytes} {denied : Option Errno} {ino : ℕ}
    (hfile : fs.node (locate fs.cwd oldPath) = some (.file ino))
    (h : fs.rename oldPath newPath denied = .ok fs') :
    fs' = fs.moveFile (locate fs.cwd oldPath) (locate fs.cwd newPath) := by
  unfold rename at h
  cases hr : fs.resolve oldPath with
  | error e => simp [hr] at h
  | ok src =>
    cases hd : fs.resolve newPath with
    | error e => simp [hr, hd] at h
    | ok dest =>
      obtain rfl := resolve_ok hr
      obtain rfl := resolve_ok hd
      simp only [hr, hd] at h
      cases denied with
      | some e => simp at h
      | none =>
        simp only [hfile] at h
        split_ifs at h
        exact (Except.ok.inj h).symm

structure SameDirs (fs fs' : Fs) : Prop where
  cwd : fs'.cwd = fs.cwd
  isDir : ∀ loc, fs'.isDir loc = fs.isDir loc

namespace SameDirs

variable {fs fs' fs'' : Fs}

theorem refl (fs : Fs) : SameDirs fs fs := ⟨rfl, fun _ => rfl⟩

theorem trans (h : SameDirs fs fs') (h' : SameDirs fs' fs'') : SameDirs fs fs'' :=
  ⟨h'.cwd.trans h.cwd, fun loc => (h'.isDir loc).trans (h.isDir loc)⟩

theorem symm (h : SameDirs fs fs') : SameDirs fs' fs := ⟨h.cwd.symm, fun loc => (h.isDir loc).symm⟩

theorem resolve (h : SameDirs fs fs') {path : Bytes} (hp : fs.resolve path = .ok (locate fs.cwd path)) :
    fs'.resolve path = .ok (locate fs'.cwd path) := by
  have hne := resolve_ne hp
  rw [Fs.resolve, if_neg hne] at hp ⊢
  rw [h.cwd]
  exact walk_isDir (fun loc hloc => (h.isDir loc).trans hloc) hp

end SameDirs

theorem setData_sameDirs (fs : Fs) (ino : ℕ) (bs : Bytes) : SameDirs fs (fs.setData ino bs) := ⟨rfl, fun _ => rfl⟩

theorem openWrite_sameDirs {fs fs' : Fs} {path : Bytes} {denied : Option Errno} {ino : ℕ}
    (h : fs.openWrite path denied = .ok (ino, fs')) : SameDirs fs fs' := by
  obtain ⟨-, ⟨-, rfl⟩ | ⟨hn, -, rfl⟩⟩ := openWrite_ok h
  · exact .refl fs'
  · refine ⟨rfl, fun loc => ?_⟩
    by_cases hl : loc = locate fs.cwd path
    · simp [isDir, create, hl, hn]
    · simp [isDir, create, Function.update_of_ne hl]

theorem unlink_sameDirs (fs : Fs) (path : Bytes) (denied : Bool) : SameDirs fs (fs.unlink path denied) := by
  unfold unlink
  cases hr : fs.resolve path with
  | error e => exact .refl fs
  | ok loc =>
    rcases hn : fs.node loc with _ | _ | ino
    · simp only [hn]
      exact .refl fs
    · simp only [hn]
      exact .refl fs
    · simp only [hn]
      split_ifs
      · exact .refl fs
      · refine ⟨rfl, fun l => ?_⟩
        by_cases hl : l = loc
        · simp [isDir, remove, relocate, hl, hn]
        · simp [isDir, remove, relocate, hl]

theorem rename_sameDirs {fs fs' : Fs} {oldPath newPath : Bytes} {denied : Option Errno} {ino : ℕ}
    (hfile : fs.node (locate fs.cwd oldPath) = some (.file ino)) (h : fs.rename oldPath newPath denied = .ok fs') :
    SameDirs fs fs' := by
  have hdest : fs.isDir (locate fs.cwd newPath) = false := by
    unfold rename at h
    cases hr : fs.resolve oldPath with
    | error e => simp [hr] at h
    | ok src =>
      cases hd : fs.resolve newPath with
      | error e => simp [hr, hd] at h
      | ok dest =>
        obtain rfl := resolve_ok hr
        obtain rfl := resolve_ok hd
        cases denied with
        | some e => simp [hr, hd] at h
        | none =>
          simp only [hr, hd, hfile] at h
          split_ifs at h with hdir
          exact Bool.not_eq_true _ ▸ hdir
  obtain rfl := rename_ok hfile h
  refine ⟨rfl, fun loc => ?_⟩
  simp only [isDir, Bool.decide_or, Bool.or_eq_false_iff, decide_eq_false_iff_not] at hdest
  by_cases hl : loc = locate fs.cwd newPath
  · simp [isDir, moveFile, relocate, hl, hfile, hdest]
  · by_cases hl' : loc = locate fs.cwd oldPath
    · subst hl'
      simp [isDir, moveFile, relocate, hl, hfile]
    · simp [isDir, moveFile, relocate, hl, hl']

theorem rename_resolve {fs fs' : Fs} {oldPath newPath : Bytes} {denied : Option Errno} {ino : ℕ}
    (hfile : fs.node (locate fs.cwd oldPath) = some (.file ino))
    (h : fs.rename oldPath newPath denied = .ok fs') : fs'.resolve newPath = .ok (locate fs'.cwd newPath) := by
  have hdirs := rename_sameDirs hfile h
  apply hdirs.resolve
  unfold rename at h
  cases hsrc : fs.resolve oldPath with
  | error e => simp [hsrc] at h
  | ok src =>
    cases hdest : fs.resolve newPath with
    | error e => simp [hsrc, hdest] at h
    | ok dest => rw [resolve_ok hdest]

theorem rename_content {fs fs' : Fs} {oldPath newPath : Bytes} {denied : Option Errno} {ino : ℕ}
    (hfile : fs.node (locate fs.cwd oldPath) = some (.file ino))
    (h : fs.rename oldPath newPath denied = .ok fs') : fs'.content newPath = fs.content oldPath := by
  obtain ⟨hold, hnew⟩ := rename_ne h
  obtain rfl := rename_ok hfile h
  simp [content, hold, hnew, moveFile, relocate, hfile]

end Fs

end BinderDownload.Files
