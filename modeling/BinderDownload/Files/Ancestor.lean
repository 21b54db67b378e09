import BinderDownload.Files.Calls

namespace BinderDownload.Files

open Text

structure Ancestor (p path : Bytes) : Prop where
  ne : p ≠ []
  bare : p.getLast? ≠ some 47
  under : ∃ rest, path = p ++ 47 :: rest

theorem Ancestor.trans {p q path : Bytes} (hpq : Ancestor p q) (hq : Ancestor q path) : Ancestor p path := by
  obtain ⟨rest, rfl⟩ := hpq.under
  obtain ⟨rest', rfl⟩ := hq.under
  exact ⟨hpq.ne, hpq.bare, rest ++ 47 :: rest', by simp⟩

theorem Ancestor.length {p path : Bytes} (h : Ancestor p path) : p.length < path.length := by
  obtain ⟨rest, rfl⟩ := h.under
  simp

theorem ancestor_of_shorter {p q path : Bytes} (hp : Ancestor p path) (hq : ∃ rest, path = q ++ 47 :: rest)
    (hlen : p.length < q.length) : Ancestor p q := by
  obtain ⟨rest, hrest⟩ := hp.under
  obtain ⟨rest', hrest'⟩ := hq
  have hprefix : p ++ [47] <+: q := by
    apply @List.prefix_of_prefix_length_le _ _ _ path
    · exact ⟨rest, by rw [hrest]; simp⟩
    · exact ⟨47 :: rest', hrest'.symm⟩
    · simp
      omega
  obtain ⟨tail, rfl⟩ := hprefix
  exact ⟨hp.ne, hp.bare, tail, by simp⟩

theorem components_slash (p q : Bytes) : components (p ++ 47 :: q) = components p ++ components q := by
  induction p with
  | nil => simp [components]
  | cons c cs ih =>
    obtain ⟨name, names, hcs⟩ := List.exists_cons_of_ne_nil (components_ne_nil cs)
    by_cases hc : c = 47
    · simp [components, hc, ih]
    · simp [components, hc, ih, hcs]

theorem start_append (cwd : Loc) {p : Bytes} (q : Bytes) (hp : p ≠ []) : start cwd (p ++ q) = start cwd p := by
  unfold start
  rw [List.head?_append_of_ne_nil _ hp]

theorem cStr_slash {p : Bytes} (hplain : (0 : UInt8) ∉ p) (q : Bytes) : cStr (p ++ 47 :: q) = p ++ 47 :: cStr q :=
  cStr_append hplain (47 :: q)

theorem locate_under (cwd : Loc) {p : Bytes} (q : Bytes) (hp : p ≠ []) (hplain : (0 : UInt8) ∉ p) :
    locate cwd (p ++ 47 :: q) = (components (cStr q)).foldl enter (locate cwd p) := by
  unfold locate
  rw [start_append cwd _ hp, cStr_slash hplain, cStr_plain hplain, components_slash, List.foldl_append]

theorem locate_slash (cwd : Loc) {p : Bytes} (hp : p ≠ []) : locate cwd (p ++ [47]) = locate cwd p := by
  by_cases hplain : (0 : UInt8) ∈ p
  · rw [locate, cStr_cut hplain, start_append cwd _ hp, locate]
  · rw [locate_under cwd [] hp hplain]
    rfl

theorem targetNames_slash (p : Bytes) : targetNames (p ++ [47]) = targetNames p := by
  unfold targetNames
  by_cases hplain : (0 : UInt8) ∈ p
  · rw [cStr_cut hplain]
  · rw [cStr_slash hplain, cStr_plain hplain, components_slash]
    exact List.rdropWhile_concat_pos _ _ _ rfl

theorem targetNames_bare {p : Bytes} (hp : p ≠ []) (hbare : p.getLast? ≠ some 47) (hplain : (0 : UInt8) ∉ p) :
    targetNames p = components p := by
  rw [targetNames, cStr_plain hplain]
  by_cases hc : 47 ∈ p
  · obtain ⟨l, r, rfl, hr⟩ := split_last hc
    have hne : r ≠ [] := by
      rintro rfl
      simp at hbare
    have hone : components r = [r] := components_append [] r hr
    rw [components_slash, hone]
    exact List.rdropWhile_concat_neg _ _ _ (by simpa using hne)
  · have hone : components p = [p] := components_append [] p hc
    rw [hone, List.rdropWhile_singleton, if_neg (by simpa using hp)]

theorem targetNames_append (p : Bytes) :
    ∃ blanks, (∀ name ∈ blanks, name = []) ∧ components (cStr p) = targetNames p ++ blanks := by
  refine ⟨(components (cStr p)).rtakeWhile List.isEmpty, fun name hname => ?_, ?_⟩
  · simpa using List.mem_rtakeWhile_imp hname
  · exact (List.rdropWhile_append_rtakeWhile ..).symm

theorem enter_blanks {blanks : List Bytes} (h : ∀ name ∈ blanks, name = []) (loc : Loc) :
    blanks.foldl enter loc = loc := by
  induction blanks with
  | nil => rfl
  | cons name names ih =>
    have hname := h name List.mem_cons_self
    rw [List.foldl_cons, enter, if_pos (.inl hname)]
    exact ih (fun n hn => h n (List.mem_cons_of_mem _ hn))

theorem locate_targetNames (cwd : Loc) (p : Bytes) : (targetNames p).foldl enter (start cwd p) = locate cwd p := by
  obtain ⟨blanks, hblanks, hp⟩ := targetNames_append p
  rw [locate, hp, List.foldl_append, enter_blanks hblanks]

def bare (path : Bytes) : Bytes := path.rdropWhile (fun c => c == 47)

theorem bare_split (path : Bytes) : ∃ slashes, (∀ c ∈ slashes, c = 47) ∧ path = bare path ++ slashes := by
  refine ⟨path.rtakeWhile (fun c => c == 47), fun c hc => ?_, (List.rdropWhile_append_rtakeWhile ..).symm⟩
  simpa using List.mem_rtakeWhile_imp hc

theorem bare_getLast (path : Bytes) : (bare path).getLast? ≠ some 47 := by
  intro h
  have hne : bare path ≠ [] := List.ne_nil_of_mem (List.mem_of_getLast? h)
  have hlast := List.rdropWhile_last_not (fun c => c == 47) path hne
  rw [List.getLast?_eq_some_getLast hne, Option.some.injEq] at h
  simp only [beq_iff_eq] at hlast
  exact hlast h

theorem locate_bare (cwd : Loc) {path : Bytes} (hne : bare path ≠ []) : locate cwd (bare path) = locate cwd path := by
  obtain ⟨slashes, hslashes, hpath⟩ := bare_split path
  have hall : ∀ n, locate cwd (bare path ++ List.replicate n 47) = locate cwd (bare path) := by
    intro n
    induction n with
    | zero => rw [List.replicate_zero, List.append_nil]
    | succ n ih => rw [List.replicate_succ', ← List.append_assoc, locate_slash cwd (by simp [hne]), ih]
  have h := hall slashes.length
  rw [← List.eq_replicate_iff.mpr ⟨rfl, hslashes⟩, ← hpath] at h
  exact h.symm

theorem ancestor_bare {path front : Bytes} (hne : bare front ≠ []) (h : ∃ rest, path = front ++ 47 :: rest) :
    Ancestor (bare front) path := by
  obtain ⟨slashes, hslashes, hfront⟩ := bare_split front
  obtain ⟨rest, rfl⟩ := h
  refine ⟨hne, bare_getLast front, ?_⟩
  generalize bare front = b at hfront
  subst hfront
  cases slashes with
  | nil => exact ⟨rest, by simp⟩
  | cons c cs => exact ⟨cs ++ 47 :: rest, by simp [hslashes c]⟩

theorem isDir_slashes (fs : Fs) {path : Bytes} (hne : path ≠ []) (h : bare path = []) :
    fs.isDir (locate fs.cwd path) = true := by
  have hall : ∀ c ∈ path, c = 47 := by
    intro c hc
    have := List.rdropWhile_eq_nil_iff.mp h c hc
    simpa using this
  have hcomp : ∀ text : Bytes, (∀ c ∈ text, c = 47) → ∀ name ∈ components text, name = [] := by
    intro text htext
    induction text with
    | nil => simp [components]
    | cons c cs ih =>
      have hc := htext c List.mem_cons_self
      have hcs := ih (fun d hd => htext d (List.mem_cons_of_mem c hd))
      simpa [components, hc] using hcs
  have hplain : (0 : UInt8) ∉ path := fun hnul => absurd (hall 0 hnul) (by decide)
  obtain ⟨c, cs, rfl⟩ := List.exists_cons_of_ne_nil hne
  have hc := hall c List.mem_cons_self
  rw [locate, cStr_plain hplain, enter_blanks (hcomp _ hall), start, hc, List.head?_cons, if_pos rfl]
  simp [Fs.isDir]

namespace Fs

variable {fs : Fs} {loc next : Loc} {names names' : List Bytes}

theorem walk_through (h : fs.walk loc names = .ok next) (hdir : fs.isDir next = true) :
    fs.walk loc (names ++ names') = fs.walk next names' := by
  fun_induction walk fs loc names with
  | case1 loc =>
    cases h
    rfl
  | case2 loc name =>
    cases h
    cases names' with
    | nil => rfl
    | cons name' rest =>
      rw [List.singleton_append, walk]
      exact if_pos hdir
  | case3 loc name name' names place hd ih =>
    rw [List.cons_append, List.cons_append, walk, if_pos hd]
    exact ih h
  | case4 loc name name' names place hd => cases h

theorem walk_blocked (h : fs.walk loc names = .ok next) (hdir : fs.isDir next = false) (hne : names ≠ [])
    (hne' : names' ≠ []) :
    fs.walk loc (names ++ names') = .error (if fs.node next = none then .enoent else .enotdir) := by
  fun_induction walk fs loc names with
  | case1 loc => exact absurd rfl hne
  | case2 loc name =>
    cases h
    obtain ⟨name', rest, rfl⟩ := List.exists_cons_of_ne_nil hne'
    rw [List.singleton_append, walk]
    exact if_neg (by simp [hdir])
  | case3 loc name name' names place hd ih =>
    rw [List.cons_append, List.cons_append, walk, if_pos hd]
    exact ih h (by simp)
  | case4 loc name name' names place hd => cases h

theorem walk_error {e : Errno} (h : fs.walk loc names = .error e) : fs.walk loc (names ++ names') = .error e := by
  fun_induction walk fs loc names with
  | case1 loc => cases h
  | case2 loc name => cases h
  | case3 loc name name' names place hd ih =>
    rw [List.cons_append, List.cons_append, walk, if_pos hd]
    exact ih h
  | case4 loc name name' names place hd =>
    rw [List.cons_append, List.cons_append, walk, if_neg hd]
    exact h

theorem walk_errno {e : Errno} (h : fs.walk loc names = .error e) : e ≠ .eexist := by
  fun_induction walk fs loc names with
  | case1 loc => cases h
  | case2 loc name => cases h
  | case3 loc name name' names place hd ih => exact ih h
  | case4 loc name name' names place hd =>
    rintro rfl
    split_ifs at h
    · cases h
    · cases h

theorem isDir_root (fs : Fs) : fs.isDir [] = true := by simp [isDir]

def Free (fs : Fs) (loc : Loc) : Prop := fs.isDir loc = false ∧ fs.node loc = none

def Blocked (fs : Fs) (loc : Loc) : Prop := fs.isDir loc = false ∧ fs.node loc ≠ none

def NamesDir (fs : Fs) (path : Bytes) : Prop := ∃ loc, fs.resolve path = .ok loc ∧ fs.isDir loc = true

instance (fs : Fs) (loc : Loc) : Decidable (fs.Free loc) := inferInstanceAs (Decidable (_ ∧ _))

instance (fs : Fs) (loc : Loc) : Decidable (fs.Blocked loc) := inferInstanceAs (Decidable (_ ∧ _))

theorem SameDirs.namesDir {fs' : Fs} (h : fs.SameDirs fs') {path : Bytes} (hp : fs.NamesDir path) :
    fs'.NamesDir path := by
  obtain ⟨loc, hr, hdir⟩ := hp
  obtain rfl := resolve_ok hr
  refine ⟨_, h.resolve hr, ?_⟩
  rw [h.cwd, h.isDir, hdir]

/-- A call of `mkdir` gets to the place that the path names. -/
structure Reaches (fs : Fs) (path : Bytes) : Prop where
  ne : cStr path ≠ []
  walks : fs.walk (start fs.cwd path) (targetNames path) = .ok (locate fs.cwd path)

theorem reaches_of_walk {path : Bytes} {loc : Loc} (hne : cStr path ≠ [])
    (h : fs.walk (start fs.cwd path) (targetNames path) = .ok loc) : fs.Reaches path := by
  have hloc := walk_ok h
  rw [locate_targetNames] at hloc
  exact ⟨hne, by rw [h, hloc]⟩

theorem cStr_slash_ne {path : Bytes} (hne : path ≠ []) : cStr (path ++ [47]) ≠ [] ↔ cStr path ≠ [] := by
  by_cases hplain : (0 : UInt8) ∈ path
  · rw [cStr_cut hplain]
  · rw [cStr_slash hplain, cStr_plain hplain]
    simp [hne]

theorem Reaches.slash {path : Bytes} (h : fs.Reaches path) (hne : path ≠ []) : fs.Reaches (path ++ [47]) := by
  refine ⟨(cStr_slash_ne hne).mpr h.ne, ?_⟩
  rw [targetNames_slash, locate_slash fs.cwd hne, start_append fs.cwd _ hne]
  exact h.walks

theorem Reaches.resolve {path : Bytes} (h : fs.Reaches path) (hdir : fs.isDir (locate fs.cwd path) = true) :
    fs.resolve path = .ok (locate fs.cwd path) := by
  obtain ⟨blanks, hblanks, hp⟩ := targetNames_append path
  rw [Fs.resolve, if_neg h.ne, hp, walk_through h.walks hdir]
  clear hp h
  induction blanks with
  | nil => rfl
  | cons name names ih =>
    have hname := hblanks name List.mem_cons_self
    have hrest : ∀ n ∈ names, n = [] := fun n hn => hblanks n (List.mem_cons_of_mem _ hn)
    subst hname
    cases names with
    | nil => rfl
    | cons name' names =>
      rw [walk]
      simp only [enter, true_or, if_true, hdir]
      exact ih hrest

theorem Reaches.namesDir {path : Bytes} (h : fs.Reaches path) (hdir : fs.isDir (locate fs.cwd path) = true) :
    fs.NamesDir path := ⟨_, h.resolve hdir, hdir⟩

theorem resolve_front {q rest : Bytes} {loc : Loc} (hne : q ≠ []) (hplain : (0 : UInt8) ∉ q)
    (h : fs.resolve (q ++ 47 :: rest) = .ok loc) : fs.NamesDir q := by
  have hcut := cStr_plain hplain
  rw [resolve, if_neg (resolve_ne h), cStr_slash hplain, components_slash, start_append fs.cwd _ hne] at h
  cases hw : fs.walk (start fs.cwd q) (components q) with
  | error e =>
    rw [walk_error hw] at h
    cases h
  | ok next =>
    refine ⟨next, ?_, ?_⟩
    · rw [resolve, hcut, if_neg hne, hw]
    by_contra hdir
    rw [walk_blocked hw (by simpa using hdir) (components_ne_nil q) (components_ne_nil (cStr rest))] at h
    cases h

theorem namesDir_ancestor {q path : Bytes} (hq : Ancestor q path) (hplain : (0 : UInt8) ∉ path) (h : fs.Reaches path)
    (hbare : path.getLast? ≠ some 47) : fs.NamesDir q := by
  obtain ⟨rest, rfl⟩ := hq.under
  have hwalk := h.walks
  rw [targetNames_bare (by simp) hbare hplain] at hwalk
  have hr : fs.resolve (q ++ 47 :: rest) = .ok (locate fs.cwd (q ++ 47 :: rest)) := by
    rw [resolve, if_neg h.ne, cStr_plain hplain, hwalk]
  exact resolve_front hq.ne (fun hnul => hplain (List.mem_append_left _ hnul)) hr

theorem reaches_of_resolve {path : Bytes} {loc : Loc} (h : fs.resolve path = .ok loc) : fs.Reaches path := by
  obtain ⟨blanks, -, hp⟩ := targetNames_append path
  have hcut := resolve_ne h
  rw [resolve, if_neg hcut] at h
  cases ht : fs.walk (start fs.cwd path) (targetNames path) with
  | error e =>
    rw [hp, walk_error ht] at h
    cases h
  | ok next => exact reaches_of_walk hcut ht

theorem NamesDir.reaches {q path : Bytes} (h : fs.NamesDir path) (hq : q = path ∨ ∃ rest, path = q ++ 47 :: rest)
    (hne : q ≠ []) (hplain : (0 : UInt8) ∉ q) : fs.Reaches q ∧ fs.isDir (locate fs.cwd q) = true := by
  obtain ⟨loc, hr, hdir⟩ := h
  have hpart : fs.NamesDir q := by
    rcases hq with rfl | ⟨rest, rfl⟩
    · exact ⟨loc, hr, hdir⟩
    · exact resolve_front hne hplain hr
  obtain ⟨place, hw, hplace⟩ := hpart
  have hloc : place = locate fs.cwd q := resolve_ok hw
  subst hloc
  exact ⟨reaches_of_resolve hw, hplace⟩

end Fs

end BinderDownload.Files
