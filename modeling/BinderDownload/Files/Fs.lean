import BinderDownload.Lib.Overlay
import BinderDownload.Files.Path

/-!
The file system that the services share. An open file keeps its content when its name goes away or
moves, so names lead to file numbers and file numbers to contents. There are no links.
-/

namespace BinderDownload.Files

open Text

inductive Errno
  | eexist | enoent | enotdir | eisdir | einval | enotempty
  | other (text : Bytes)
  deriving DecidableEq

def strerror : Errno → Bytes
  | .eexist => ascii "File exists"
  | .enoent => ascii "No such file or directory"
  | .enotdir => ascii "Not a directory"
  | .eisdir => ascii "Is a directory"
  | .einval => ascii "Invalid argument"
  | .enotempty => ascii "Directory not empty"
  | .other text => text

inductive Node
  | dir
  | file (ino : ℕ)
  deriving DecidableEq

structure Fs where
  node : Loc → Option Node
  data : ℕ → Bytes
  fresh : ℕ
  cwd : Loc
  places : List Loc
  used : ∀ {loc ino}, node loc = some (.file ino) → ino < fresh
  single : ∀ {loc loc' ino}, node loc = some (.file ino) → node loc' = some (.file ino) → loc = loc'
  listed : ∀ {loc}, node loc ≠ none → loc ∈ places

namespace Fs

def isDir (fs : Fs) (loc : Loc) : Bool := loc = [] ∨ fs.node loc = some .dir

def walk (fs : Fs) (loc : Loc) : List Bytes → Except Errno Loc
  | [] => .ok loc
  | [name] => .ok (enter loc name)
  | name :: name' :: names =>
    let next := enter loc name
    if fs.isDir next then fs.walk next (name' :: names)
    else .error (if fs.node next = none then .enoent else .enotdir)

def resolve (fs : Fs) (path : Bytes) : Except Errno Loc :=
  if cStr path = [] then .error .enoent else fs.walk (start fs.cwd path) (components (cStr path))

def isEmpty (fs : Fs) (loc : Loc) : Bool := fs.places.all (fun l => !(loc <+: l ∧ l ≠ loc ∧ fs.node l ≠ none))

theorem walk_ok {fs : Fs} {loc loc' : Loc} {names : List Bytes} (h : fs.walk loc names = .ok loc') :
    loc' = names.foldl enter loc := by
  fun_induction walk fs loc names with
  | case1 loc => simpa using h.symm
  | case2 loc name => simpa using h.symm
  | case3 loc name name' names next hdir ih => exact ih h
  | case4 loc name name' names next hdir => simp at h

theorem resolve_ok {fs : Fs} {path : Bytes} {loc : Loc} (h : fs.resolve path = .ok loc) :
    loc = locate fs.cwd path := by
  unfold resolve at h
  split_ifs at h
  exact walk_ok h

theorem resolve_ne {fs : Fs} {path : Bytes} {loc : Loc} (h : fs.resolve path = .ok loc) : cStr path ≠ [] := by
  intro hnil
  rw [resolve, if_pos hnil] at h
  cases h

theorem resolve_name (fs : Fs) (name : Bytes) (h : 47 ∉ name) (hne : cStr name ≠ []) :
    fs.resolve name = .ok (locate fs.cwd name) := by
  have hone : components (cStr name) = [cStr name] :=
    components_append [] _ (fun hc => h ((cStr_within name).subset hc))
  rw [resolve, if_neg hne, locate, hone]
  rfl

def content (fs : Fs) (path : Bytes) : Option Bytes :=
  if cStr path = [] then none
  else
    match fs.node (locate fs.cwd path) with
    | some (.file ino) => some (fs.data ino)
    | _ => none

def fileSize (fs : Fs) (path : Bytes) : ℕ :=
  match fs.resolve path with
  | .error _ => 0
  | .ok loc =>
    match fs.node loc with
    | some (.file ino) => (fs.data ino).length
    | _ => 0

def setData (fs : Fs) (ino : ℕ) (bs : Bytes) : Fs := { fs with data := Function.update fs.data ino bs }

def create (fs : Fs) (loc : Loc) : Fs where
  node := Function.update fs.node loc (some (.file fs.fresh))
  data := Function.update fs.data fs.fresh []
  fresh := fs.fresh + 1
  cwd := fs.cwd
  places := loc :: fs.places
  listed := by
    intro l hl
    by_cases hloc : l = loc
    · rw [hloc]
      exact List.mem_cons_self
    · rw [Function.update_of_ne hloc] at hl
      exact List.mem_cons_of_mem _ (fs.listed hl)
  used := by
    intro l ino hl
    by_cases hloc : l = loc
    · rw [hloc, Function.update_self] at hl
      cases hl
      exact Nat.lt_succ_self _
    · rw [Function.update_of_ne hloc] at hl
      exact Nat.lt_succ_of_lt (fs.used hl)
  single := by
    have hfresh {l ino} (hne : l ≠ loc) (hl : fs.node l = some (.file ino)) : ino ≠ fs.fresh := (fs.used hl).ne
    intro l l' ino hl hl'
    by_cases hloc : l = loc <;> by_cases hloc' : l' = loc
    · rw [hloc, hloc']
    · rw [hloc, Function.update_self] at hl
      rw [Function.update_of_ne hloc'] at hl'
      cases hl
      exact absurd rfl (hfresh hloc' hl')
    · rw [Function.update_of_ne hloc] at hl
      rw [hloc', Function.update_self] at hl'
      cases hl'
      exact absurd rfl (hfresh hloc hl)
    · rw [Function.update_of_ne hloc] at hl
      rw [Function.update_of_ne hloc'] at hl'
      exact fs.single hl hl'

def createDir (fs : Fs) (loc : Loc) : Fs where
  node := Function.update fs.node loc (some .dir)
  data := fs.data
  fresh := fs.fresh
  cwd := fs.cwd
  places := loc :: fs.places
  listed := by
    intro l hl
    by_cases hloc : l = loc
    · rw [hloc]
      exact List.mem_cons_self
    · rw [Function.update_of_ne hloc] at hl
      exact List.mem_cons_of_mem _ (fs.listed hl)
  used := by
    intro l ino hl
    by_cases hloc : l = loc
    · simp [hloc] at hl
    · rw [Function.update_of_ne hloc] at hl
      exact fs.used hl
  single := by
    intro l l' ino hl hl'
    by_cases hloc : l = loc
    · simp [hloc] at hl
    by_cases hloc' : l' = loc
    · simp [hloc'] at hl'
    rw [Function.update_of_ne hloc] at hl
    rw [Function.update_of_ne hloc'] at hl'
    exact fs.single hl hl'

def relocate (fs : Fs) (origin : Loc → Option Loc)
    (inj : ∀ {l l' loc}, origin l = some loc → origin l' = some loc → l = l') (places : List Loc)
    (listed : ∀ {l loc}, origin l = some loc → loc ∈ fs.places → l ∈ places) : Fs where
  node := fun loc => (origin loc).bind fs.node
  data := fs.data
  fresh := fs.fresh
  cwd := fs.cwd
  places := places
  listed := by
    intro loc h
    obtain ⟨node, hnode⟩ := Option.ne_none_iff_exists'.mp h
    obtain ⟨loc', hloc', h'⟩ := Option.bind_eq_some_iff.mp hnode
    exact listed hloc' (fs.listed (by simp [h']))
  used := by
    intro loc ino h
    obtain ⟨loc', -, h'⟩ := Option.bind_eq_some_iff.mp h
    exact fs.used h'
  single := by
    intro l l' ino h h'
    obtain ⟨x, hx, hn⟩ := Option.bind_eq_some_iff.mp h
    obtain ⟨x', hx', hn'⟩ := Option.bind_eq_some_iff.mp h'
    have := fs.single hn hn'
    subst this
    exact inj hx hx'

def remove (fs : Fs) (loc : Loc) : Fs :=
  fs.relocate (fun l => if l = loc then none else some l) (by
    intro l l' x h h'
    split_ifs at h h'
    cases h
    cases h'
    rfl) fs.places (by
    intro l x h hx
    split_ifs at h
    cases h
    exact hx)

def moveFile (fs : Fs) (src dest : Loc) : Fs :=
  fs.relocate (fun l => if l = dest then some src else if l = src then none else some l) (by
    intro l l' x h h'
    split_ifs at h h' with h1 h2 h3 h4 h5 h6 <;> simp_all) (dest :: fs.places) (by
    intro l x h hx
    split_ifs at h with hdest hsrc
    · rw [hdest]
      exact List.mem_cons_self
    · cases h
      exact List.mem_cons_of_mem _ hx)

def moveDir (fs : Fs) (src dest : Loc) : Fs :=
  fs.relocate (fun l => if dest <+: l then some (src ++ l.drop dest.length)
    else if src <+: l then none else some l) (by
    intro l l' x h h'
    split_ifs at h h' with h1 h2 h3 h4 h5 h6
    · cases h
      have := List.append_cancel_left (Option.some.inj h')
      rw [← List.prefix_iff_eq_append.mp h1, ← List.prefix_iff_eq_append.mp h2, this]
    · cases h
      exact absurd (by rw [Option.some.inj h']; exact List.prefix_append _ _) h3
    · cases h'
      exact absurd (by rw [Option.some.inj h]; exact List.prefix_append _ _) h4
    · cases h
      exact (Option.some.inj h').symm)
    (fs.places.map (fun l => if src <+: l then dest ++ l.drop src.length else l) ++ fs.places) (by
    intro l x h hx
    split_ifs at h with hdest hsrc
    · cases h
      refine List.mem_append_left _ (List.mem_map.mpr ⟨_, hx, ?_⟩)
      rw [if_pos (List.prefix_append _ _), List.drop_left, ← List.prefix_iff_eq_append.mp hdest]
      simp
    · cases h
      exact List.mem_append_right _ hx)

def lone (name bytes : Bytes) : Fs where
  node := fun loc => if loc = [name] then some (.file 0) else none
  data := fun _ => bytes
  fresh := 1
  cwd := []
  places := [[name]]
  listed := by
    intro loc h
    split_ifs at h with hl
    · rw [hl]
      exact List.mem_singleton_self _
    · exact absurd rfl h
  used := by
    intro loc ino h
    split_ifs at h
    cases h
    exact Nat.one_pos
  single := by
    intro loc loc' ino h h'
    split_ifs at h h' with hl hl'
    rw [hl, hl']

end Fs

end BinderDownload.Files
