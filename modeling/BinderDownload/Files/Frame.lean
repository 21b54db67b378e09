import BinderDownload.Files.Calls

namespace BinderDownload.Files.Fs

open Text

structure Spares (loc : Loc) (fs fs' : Fs) : Prop where
  cwd : fs'.cwd = fs.cwd
  file : ∀ ino, fs'.node loc = some (.file ino) ↔ fs.node loc = some (.file ino)
  data : ∀ ino, fs.node loc = some (.file ino) → fs'.data ino = fs.data ino

structure Keeps (loc : Loc) (fs fs' : Fs) : Prop where
  cwd : fs'.cwd = fs.cwd
  node : fs'.node loc = fs.node loc
  data : ∀ ino, fs.node loc = some (.file ino) → fs'.data ino = fs.data ino

variable {loc : Loc} {fs fs' fs'' : Fs}

theorem Keeps.refl (loc : Loc) (fs : Fs) : Keeps loc fs fs := ⟨rfl, rfl, fun _ _ => rfl⟩

theorem Keeps.trans (h : Keeps loc fs fs') (h' : Keeps loc fs' fs'') : Keeps loc fs fs'' := by
  refine ⟨h'.cwd.trans h.cwd, h'.node.trans h.node, fun ino hino => ?_⟩
  rw [h'.data ino (h.node.trans hino), h.data ino hino]

theorem Keeps.between (h : Keeps loc fs fs') (h' : Keeps loc fs fs'') : Keeps loc fs' fs'' := by
  refine ⟨h'.cwd.trans h.cwd.symm, h'.node.trans h.node.symm, fun ino hino => ?_⟩
  have hold := h.node.symm.trans hino
  rw [h'.data ino hold, h.data ino hold]

theorem Keeps.content {path : Bytes} (h : Keeps (locate fs.cwd path) fs fs') : fs'.content path = fs.content path := by
  unfold Fs.content
  split_ifs
  · rfl
  · rw [h.cwd, h.node]
    rcases hn : fs.node (locate fs.cwd path) with _ | _ | ino
    · rfl
    · rfl
    · exact congrArg some (h.data ino hn)

theorem Keeps.spares (h : Keeps loc fs fs') : Spares loc fs fs' := ⟨h.cwd, fun ino => by rw [h.node], h.data⟩

theorem Spares.refl (loc : Loc) (fs : Fs) : Spares loc fs fs := (Keeps.refl loc fs).spares

theorem SameFiles.spares (h : SameFiles fs fs') (loc : Loc) : Spares loc fs fs' :=
  ⟨h.cwd, h.file loc, fun ino _ => by rw [h.data]⟩

theorem openWrite_keeps {path : Bytes} {denied : Option Errno} {ino : ℕ}
    (h : fs.openWrite path denied = .ok (ino, fs')) (hne : loc ≠ locate fs.cwd path) : Keeps loc fs fs' := by
  obtain ⟨-, ⟨-, rfl⟩ | ⟨hn, -, rfl⟩⟩ := openWrite_ok h
  · exact .refl loc fs'
  · refine ⟨rfl, ?_, fun i hi => ?_⟩
    · simp [create, hne]
    · simp [create, (fs.used hi).ne]

theorem setData_keeps {ino : ℕ} {bs : Bytes} (h : fs.node loc ≠ some (.file ino)) :
    Keeps loc fs (fs.setData ino bs) := by
  refine ⟨rfl, rfl, fun i hi => ?_⟩
  have hne : i ≠ ino := by
    rintro rfl
    exact h hi
  simp [setData, hne]

theorem unlink_keeps {path : Bytes} {denied : Bool} (hne : loc ≠ locate fs.cwd path) :
    Keeps loc fs (fs.unlink path denied) := by
  rcases fs.unlink_cases path denied with h | ⟨-, h⟩
  · rw [h]
    exact .refl loc fs
  · rw [h]
    exact ⟨rfl, by simp [remove, relocate, hne], fun i _ => rfl⟩

theorem rename_keeps {oldPath newPath : Bytes} {denied : Option Errno} {ino : ℕ}
    (hfile : fs.node (locate fs.cwd oldPath) = some (.file ino)) (h : fs.rename oldPath newPath denied = .ok fs')
    (hold : loc ≠ locate fs.cwd oldPath) (hnew : loc ≠ locate fs.cwd newPath) : Keeps loc fs fs' := by
  rw [rename_ok hfile h]
  exact ⟨rfl, by simp [moveFile, relocate, hold, hnew], fun i _ => rfl⟩

theorem openWrite_spares {path : Bytes} {denied : Option Errno} {ino : ℕ}
    (h : fs.openWrite path denied = .ok (ino, fs')) (hne : loc ≠ locate fs.cwd path) : Spares loc fs fs' :=
  (openWrite_keeps h hne).spares

theorem setData_spares {ino : ℕ} {bs : Bytes} (h : fs.node loc ≠ some (.file ino)) :
    Spares loc fs (fs.setData ino bs) := (setData_keeps h).spares

theorem unlink_spares {path : Bytes} {denied : Bool} (hne : loc ≠ locate fs.cwd path) :
    Spares loc fs (fs.unlink path denied) := (unlink_keeps hne).spares

theorem rename_spares {oldPath newPath : Bytes} {denied : Option Errno} {ino : ℕ}
    (hfile : fs.node (locate fs.cwd oldPath) = some (.file ino)) (h : fs.rename oldPath newPath denied = .ok fs')
    (hold : loc ≠ locate fs.cwd oldPath) (hnew : loc ≠ locate fs.cwd newPath) : Spares loc fs fs' :=
  (rename_keeps hfile h hold hnew).spares

end BinderDownload.Files.Fs
