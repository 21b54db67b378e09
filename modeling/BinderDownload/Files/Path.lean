import BinderDownload.Lib.Text

namespace BinderDownload.Files

open Text

abbrev Loc := List Bytes

/-- What a system call gets of a `std::string`: the text up to its first NUL. -/
def cStr (text : Bytes) : Bytes := text.takeWhile (fun c => c != 0)

section CStr

variable {p : Bytes}

theorem cStr_within (text : Bytes) : cStr text <+: text := List.takeWhile_prefix _

theorem not_mem_cStr (text : Bytes) : (0 : UInt8) ∉ cStr text := by
  intro h
  simpa using List.mem_takeWhile_imp h

theorem cStr_append (hp : (0 : UInt8) ∉ p) (q : Bytes) : cStr (p ++ q) = p ++ cStr q := by
  apply List.takeWhile_append_of_pos
  intro c hc
  simpa using fun h : c = 0 => hp (h ▸ hc)

theorem cStr_plain (hp : (0 : UInt8) ∉ p) : cStr p = p := by
  have hnil : cStr [] = [] := rfl
  rw [← List.append_nil p, cStr_append hp, hnil]

theorem cStr_cut (hp : (0 : UInt8) ∈ p) (q : Bytes) : cStr (p ++ q) = cStr p := by
  obtain ⟨l, r, rfl, hl⟩ := List.eq_append_cons_of_mem hp
  rw [List.append_assoc, cStr_append hl, cStr_append hl]
  rfl

theorem cStr_cStr (text : Bytes) : cStr (cStr text) = cStr text := cStr_plain (not_mem_cStr text)

theorem cStr_split (hp : (0 : UInt8) ∈ p) : ∃ rest, p = cStr p ++ 0 :: rest := by
  obtain ⟨l, r, rfl, hl⟩ := List.eq_append_cons_of_mem hp
  refine ⟨r, ?_⟩
  rw [cStr_append hl]
  simp [cStr]

end CStr

def components : Bytes → List Bytes
  | [] => [[]]
  | c :: cs =>
    if c = 47 then [] :: components cs
    else match components cs with
      | [] => [[c]]
      | name :: names => (c :: name) :: names

theorem components_ne_nil (path : Bytes) : components path ≠ [] := by
  cases path with
  | nil => simp [components]
  | cons c cs =>
    unfold components
    split_ifs
    · simp
    · cases components cs <;> simp

theorem components_append (path text : Bytes) (h : 47 ∉ text) :
    components (path ++ text) =
      (components path).dropLast ++ [(components path).getLastD [] ++ text] := by
  induction path with
  | nil =>
    induction text with
    | nil => rfl
    | cons c cs ih =>
      have hc : c ≠ 47 := fun hc => h (hc ▸ List.mem_cons_self)
      have hcs := ih (fun hcs => h (List.mem_cons_of_mem c hcs))
      simp only [List.nil_append, components, List.dropLast_singleton, List.getLastD_cons, List.getLastD_nil,
        hc, if_false] at hcs ⊢
      rw [hcs]
  | cons c cs ih =>
    rw [List.cons_append]
    have hne := components_ne_nil cs
    by_cases hc : c = 47
    · simp only [components, hc, if_true]
      rw [ih, List.dropLast_cons_of_ne_nil hne, List.getLastD_cons, List.cons_append]
    · simp only [components, hc, if_false]
      rw [ih]
      rcases hcomp : components cs with _ | ⟨name, _ | ⟨name', names⟩⟩
      · exact absurd hcomp hne
      · simp
      · simp

/-- The names of a path for `mkdir`, which does not mind slashes at the end. -/
def targetNames (path : Bytes) : List Bytes := (components (cStr path)).rdropWhile List.isEmpty

def enter (loc : Loc) (name : Bytes) : Loc :=
  if name = [] ∨ name = ascii "." then loc
  else if name = ascii ".." then loc.dropLast
  else loc ++ [name]

def start (cwd : Loc) (path : Bytes) : Loc := if path.head? = some 47 then [] else cwd

def locate (cwd : Loc) (path : Bytes) : Loc := (components (cStr path)).foldl enter (start cwd path)

def parent (cwd : Loc) (path : Bytes) : Loc := (components (cStr path)).dropLast.foldl enter (start cwd path)

def lastName (path : Bytes) : Bytes := (components (cStr path)).getLastD []

theorem start_cStr (cwd : Loc) {path : Bytes} (h : cStr path ≠ []) : start cwd (cStr path) = start cwd path := by
  obtain ⟨rest, hrest⟩ := cStr_within path
  unfold start
  conv => rhs; rw [← hrest, List.head?_append_of_ne_nil _ h]

theorem locate_cStr (cwd : Loc) {path : Bytes} (h : cStr path ≠ []) : locate cwd (cStr path) = locate cwd path := by
  rw [locate, locate, cStr_cStr, start_cStr cwd h]

theorem locate_eq (cwd : Loc) (path : Bytes) : locate cwd path = enter (parent cwd path) (lastName path) := by
  unfold locate parent lastName
  conv => lhs; rw [← List.dropLast_append_getLast (components_ne_nil (cStr path))]
  rw [List.foldl_append, List.getLastD_eq_getLast?, List.getLast?_eq_some_getLast (components_ne_nil (cStr path))]
  rfl

def partOf (destPath : Bytes) : Bytes := destPath ++ ascii ".part"

theorem locate_part (cwd : Loc) (destPath : Bytes) (hne : destPath ≠ []) (hplain : (0 : UInt8) ∉ destPath) :
    locate cwd (partOf destPath) = parent cwd destPath ++ [lastName destPath ++ ascii ".part"] := by
  have hstart : start cwd (partOf destPath) = start cwd destPath := by
    unfold start partOf
    rw [List.head?_append_of_ne_nil _ hne]
  have hname : enter (parent cwd destPath) (lastName destPath ++ ascii ".part") =
      parent cwd destPath ++ [lastName destPath ++ ascii ".part"] := by
    have hlen (text : Bytes) (ht : text.length < 5) : lastName destPath ++ ascii ".part" ≠ text := by
      intro h
      have := congrArg List.length h
      simp only [List.length_append, show (ascii ".part").length = 5 from rfl] at this
      omega
    rw [enter, if_neg (not_or.mpr ⟨hlen [] (by decide), hlen _ (by decide)⟩), if_neg (hlen _ (by decide))]
  have hcut : cStr (partOf destPath) = destPath ++ ascii ".part" := by
    rw [partOf, cStr_append hplain, cStr_plain (by decide)]
  have hdest := cStr_plain hplain
  unfold parent lastName at hname ⊢
  unfold locate
  rw [hstart, hcut, components_append destPath _ (by decide), List.foldl_append]
  rw [hdest] at hname ⊢
  exact hname

theorem locate_part_ne (cwd : Loc) (destPath : Bytes) (hne : destPath ≠ []) (hplain : (0 : UInt8) ∉ destPath) :
    locate cwd (partOf destPath) ≠ locate cwd destPath := by
  rw [locate_part cwd destPath hne hplain, locate_eq cwd destPath]
  unfold enter
  split_ifs with h1 h2
  · intro h
    have := congrArg List.length h
    simp at this
  · intro h
    have := congrArg List.length h
    simp at this
    omega
  · simp [ascii]

theorem locate_part_nul (cwd : Loc) {destPath : Bytes} (hnul : (0 : UInt8) ∈ destPath) :
    locate cwd (partOf destPath) = locate cwd destPath := by
  have hne : destPath ≠ [] := List.ne_nil_of_mem hnul
  rw [locate, locate, partOf, cStr_cut hnul, start, start, List.head?_append_of_ne_nil _ hne]

end BinderDownload.Files
