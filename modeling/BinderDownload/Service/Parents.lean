import BinderDownload.Lib.Cut
import BinderDownload.Files.Ancestor
import BinderDownload.Service.Attempt

namespace BinderDownload.DownloadService

open Text Files

section Ways

variable (fs : Fs) (denied : Bytes → Option Errno)

/-- `mkdir` is not denied here, or the place has been met before under a shorter name. -/
def Creatable (q : Bytes) : Prop := denied q = none ∨ ∃ p, Ancestor p q ∧ locate fs.cwd p = locate fs.cwd q

def Passable (q : Bytes) : Prop :=
  fs.isDir (locate fs.cwd q) = true ∨ fs.Free (locate fs.cwd q) ∧ Creatable fs denied q

def Clear (path : Bytes) : Prop := ∀ q, Ancestor q path → Passable fs denied q

def way (path : Bytes) : Bytes :=
  match rfind 47 path with
  | none => []
  | some slash => cStr (path.take slash) ++ [47]

/-- A directory is missing at the place, and `ensureParentDir` makes it. -/
def Makes (path : Bytes) (loc : Loc) : Prop :=
  fs.Free loc ∧ ∃ q, Ancestor q (way path) ∧ locate fs.cwd q = loc ∧ Creatable fs denied q ∧ Clear fs denied q

end Ways

/-- Between two turns of the loop in `ensureParentDir`: the texts in front of the slashes of `path` that are shorter
than `n` have had their turn. -/
structure Underway (fs : Fs) (denied : Bytes → Option Errno) (path : Bytes) (n : ℕ) (now : Fs) : Prop where
  plain : (0 : UInt8) ∉ path
  same : fs.SameFiles now
  found : ∀ q, q ≠ [] → q.length < n → (∃ rest, path = q ++ 47 :: rest) →
    now.Reaches q ∧ ¬now.Free (locate fs.cwd q)
  creatable : ∀ q, Ancestor q path → q.length < n → fs.Free (locate fs.cwd q) → Creatable fs denied q
  made : ∀ loc, now.node loc = fs.node loc ∨
    fs.Free loc ∧ now.node loc = some .dir ∧ ∃ q, Ancestor q path ∧ q.length < n ∧ locate fs.cwd q = loc

section Steps

variable {fs now now' : Fs} {denied : Bytes → Option Errno} {path p rest text : Bytes} {n : ℕ}

theorem plain_front (hplain : (0 : UInt8) ∉ path) (hpath : path = p ++ 47 :: rest) : (0 : UInt8) ∉ p := by
  intro hnul
  exact hplain (hpath ▸ List.mem_append_left _ hnul)

theorem makeDir_reached (h : now.Reaches p) (hfree : ¬now.Free (locate now.cwd p)) :
    makeDir p denied now = .ok now := by
  have hex : now.isDir (locate now.cwd p) = true ∨ now.node (locate now.cwd p) ≠ none := by
    by_contra hno
    rw [not_or, Bool.not_eq_true, not_not] at hno
    exact hfree hno
  unfold makeDir
  split_ifs
  · rfl
  · simp only [Fs.mkdir, if_neg h.ne, h.walks, if_pos hex]

theorem makeDir_free (denied : Bytes → Option Errno) (hne : p ≠ []) (hplain : (0 : UInt8) ∉ p) (h : now.Reaches p)
    (hfree : now.Free (locate now.cwd p)) :
    makeDir p denied now = match denied p with
      | some .eexist => .ok now
      | some e => .error (ascii "cannot create directory " ++ p ++ ascii ": " ++ strerror e)
      | none => .ok (now.createDir (locate now.cwd p)) := by
  have hno : ¬(now.isDir (locate now.cwd p) = true ∨ now.node (locate now.cwd p) ≠ none) := by
    simp [hfree.1, hfree.2]
  unfold makeDir
  simp only [hne, if_false, Fs.mkdir, h.walks, if_neg hno, cStr_plain hplain]
  cases denied p with
  | none => rfl
  | some e => cases e <;> rfl

theorem makeDir_unreached {e : Errno} (hne : p ≠ []) (hplain : (0 : UInt8) ∉ p)
    (h : now.walk (start now.cwd p) (targetNames p) = .error e) :
    makeDir p denied now = .error (ascii "cannot create directory " ++ p ++ ascii ": " ++ strerror e) := by
  have he := Fs.walk_errno h
  unfold makeDir
  simp only [hne, if_false, Fs.mkdir, cStr_plain hplain, h]

theorem Underway.isDir (h : Underway fs denied path n now) {loc : Loc} (hdir : fs.isDir loc = true) :
    now.isDir loc = true := by
  simp only [Fs.isDir, decide_eq_true_eq] at hdir ⊢
  rcases h.made loc with hnode | ⟨-, hnode, -⟩
  · rwa [hnode]
  · exact .inr hnode

theorem Underway.free (h : Underway fs denied path n now) {loc : Loc} (hfree : now.Free loc) : fs.Free loc := by
  rcases h.made loc with hnode | ⟨-, hnode, -⟩
  · refine ⟨?_, hnode ▸ hfree.2⟩
    by_contra hdir
    have := h.isDir (by simpa using hdir)
    rw [hfree.1] at this
    cases this
  · rw [hfree.2] at hnode
    cases hnode

theorem Underway.filled (h : Underway fs denied path n now) {loc : Loc} (hfree : fs.Free loc) (hnow : ¬now.Free loc) :
    now.isDir loc = true := by
  rcases h.made loc with hnode | ⟨-, hnode, -⟩
  · by_contra hdir
    exact hnow ⟨by simpa using hdir, hnode.trans hfree.2⟩
  · simp [Fs.isDir, hnode]

theorem Underway.passed (h : Underway fs denied path n now) {q : Bytes} (hq : Ancestor q path) (hlen : q.length < n)
    (hpass : Passable fs denied q) : now.isDir (locate fs.cwd q) = true := by
  rcases hpass with hdir | ⟨hfree, -⟩
  · exact h.isDir hdir
  · exact h.filled hfree (h.found q hq.ne hlen hq.under).2

theorem Underway.reaches (h : Underway fs denied path n now) (hpath : path = p ++ 47 :: rest) (hne : p ≠ [])
    (hbare : p.getLast? ≠ some 47)
    (hgap : ∀ q tail, path = q ++ 47 :: tail → q.length < p.length → q.length < n) (hclear : Clear fs denied p) :
    now.Reaches p := by
  have hplain := plain_front h.plain hpath
  refine ⟨by rwa [cStr_plain hplain], ?_⟩
  rw [targetNames_bare hne hbare hplain]
  by_cases hc : 47 ∈ p
  · obtain ⟨l, r, rfl, hr⟩ := split_last hc
    have hl0 : (0 : UInt8) ∉ l := fun hnul => hplain (List.mem_append_left _ hnul)
    have hr0 : (0 : UInt8) ∉ r := fun hnul => hplain (List.mem_append_right _ (List.mem_cons_of_mem _ hnul))
    have hfront : path = l ++ 47 :: (r ++ 47 :: rest) := by simpa using hpath
    have hcwd : now.cwd = fs.cwd := h.same.cwd
    have hone : components r = [r] := components_append [] r hr
    by_cases hl : l = []
    · subst hl
      rw [List.nil_append] at hplain
      simp [hone, components, start, locate, Fs.walk, enter, Fs.isDir_root, cStr_plain hplain]
    · obtain ⟨hreach, -⟩ := h.found l hl (hgap l _ hfront (by simp)) ⟨_, hfront⟩
      have hdir : now.isDir (locate now.cwd l) = true := by
        by_cases hb : bare l = []
        · exact isDir_slashes now hl hb
        · have hanc : Ancestor (bare l) (l ++ 47 :: r) := ancestor_bare hb ⟨r, rfl⟩
          have hanc' : Ancestor (bare l) path := ancestor_bare hb ⟨_, hfront⟩
          obtain ⟨tail, htail⟩ := hanc'.under
          rw [← locate_bare now.cwd hb, hcwd]
          exact h.passed hanc' (hgap _ tail htail hanc.length) (hclear _ hanc)
      have hw := hreach.resolve hdir
      rw [Fs.resolve, if_neg hreach.ne, cStr_plain hl0] at hw
      rw [components_slash, start_append now.cwd _ hl, Fs.walk_through hw hdir, locate_under now.cwd r hl hl0,
        cStr_plain hr0, hone]
      rfl
  · have hone : components p = [p] := components_append [] p hc
    rw [locate, cStr_plain hplain, hone]
    rfl

theorem Underway.skip (h : Underway fs denied path 0 now) : Underway fs denied path 1 now := by
  have hnone {q : Bytes} (hne : q ≠ []) (hlen : q.length < 1) : False :=
    hne (List.eq_nil_of_length_eq_zero (by omega))
  refine ⟨h.plain, h.same, fun q hne hlen => (hnone hne hlen).elim, fun q hq hlen => (hnone hq.ne hlen).elim,
    fun loc => ?_⟩
  rcases h.made loc with hnode | ⟨hfree, hnode, q, hq, hlen, hloc⟩
  · exact .inl hnode
  · exact .inr ⟨hfree, hnode, q, hq, by omega, hloc⟩

theorem Underway.keep (h : Underway fs denied path n now) (hpath : path = p ++ 47 :: rest) (hn : n ≤ p.length)
    (hgap : ∀ q tail, path = q ++ 47 :: tail → q.length < p.length → q.length < n) (hreach : now.Reaches p)
    (hstands : ¬now.Free (locate fs.cwd p)) : Underway fs denied path (p.length + 1) now := by
  have same {q tail : Bytes} (hq : path = q ++ 47 :: tail) (hlen : q.length = p.length) : q = p :=
    (List.append_inj (hq.symm.trans hpath) hlen).1
  refine ⟨h.plain, h.same, fun q hne hlen hq => ?_, fun q hq hlen hfree => ?_, fun loc => ?_⟩
  · obtain ⟨tail, htail⟩ := hq
    rcases Nat.lt_succ_iff_lt_or_eq.mp hlen with hlt | heq
    · exact h.found q hne (hgap q tail htail hlt) ⟨tail, htail⟩
    · rw [same htail heq]
      exact ⟨hreach, hstands⟩
  · obtain ⟨tail, htail⟩ := hq.under
    rcases Nat.lt_succ_iff_lt_or_eq.mp hlen with hlt | heq
    · exact h.creatable q hq (hgap q tail htail hlt) hfree
    · obtain rfl := same htail heq
      rcases h.made (locate fs.cwd q) with hnode | ⟨-, -, b, hb, hblen, hloc⟩
      · have hdir := h.filled hfree hstands
        simp only [Fs.isDir, hnode] at hdir
        have hfree' := hfree.1
        simp only [Fs.isDir] at hfree'
        rw [hfree'] at hdir
        cases hdir
      · exact .inr ⟨b, ancestor_of_shorter hb hq.under (by omega), hloc⟩
  · rcases h.made loc with hnode | ⟨hfree, hnode, q, hq, hlen, hloc⟩
    · exact .inl hnode
    · exact .inr ⟨hfree, hnode, q, hq, by omega, hloc⟩

theorem createDir_isDir {loc loc' : Loc} (h : now.isDir loc = true) : (now.createDir loc').isDir loc = true := by
  by_cases hloc : loc = loc'
  · simp [Fs.isDir, Fs.createDir, hloc]
  · simpa [Fs.isDir, Fs.createDir, Function.update_of_ne hloc] using h

theorem Underway.make (h : Underway fs denied path n now) (hpath : path = p ++ 47 :: rest) (hn : n ≤ p.length)
    (hgap : ∀ q tail, path = q ++ 47 :: tail → q.length < p.length → q.length < n) (hne : p ≠ [])
    (hbare : p.getLast? ≠ some 47) (hreach : now.Reaches p) (hfree : now.Free (locate fs.cwd p))
    (hdenied : denied p = none) : Underway fs denied path (p.length + 1) (now.createDir (locate fs.cwd p)) := by
  have same {q tail : Bytes} (hq : path = q ++ 47 :: tail) (hlen : q.length = p.length) : q = p :=
    (List.append_inj (hq.symm.trans hpath) hlen).1
  have hdir : ∀ loc, now.isDir loc = true → (now.createDir (locate fs.cwd p)).isDir loc = true :=
    fun _ => createDir_isDir
  have hstands : ∀ loc, ¬now.Free loc → ¬(now.createDir (locate fs.cwd p)).Free loc := by
    intro loc hl hl'
    by_cases hloc : loc = locate fs.cwd p
    · exact hl (hloc ▸ hfree)
    · refine hl ⟨?_, ?_⟩
      · by_contra hd
        have := hdir loc (by simpa using hd)
        rw [hl'.1] at this
        cases this
      · simpa [Fs.createDir, Function.update_of_ne hloc] using hl'.2
  have hreaches : ∀ q, now.Reaches q → (now.createDir (locate fs.cwd p)).Reaches q :=
    fun q hq => ⟨hq.ne, Fs.walk_isDir hdir hq.walks⟩
  have hsame : now.SameFiles (now.createDir (locate fs.cwd p)) := by
    refine ⟨rfl, rfl, fun loc ino => ?_⟩
    by_cases hloc : loc = locate fs.cwd p
    · simp [Fs.createDir, hloc, hfree.2]
    · simp [Fs.createDir, Function.update_of_ne hloc]
  refine ⟨h.plain, h.same.trans hsame, fun q hqne hlen hq => ?_, fun q hq hlen hqfree => ?_, fun loc => ?_⟩
  · obtain ⟨tail, htail⟩ := hq
    rcases Nat.lt_succ_iff_lt_or_eq.mp hlen with hlt | heq
    · obtain ⟨hr, hs⟩ := h.found q hqne (hgap q tail htail hlt) ⟨tail, htail⟩
      exact ⟨hreaches q hr, hstands _ hs⟩
    · rw [same htail heq]
      refine ⟨hreaches p hreach, fun hl => ?_⟩
      simp [Fs.Free, Fs.createDir] at hl
  · obtain ⟨tail, htail⟩ := hq.under
    rcases Nat.lt_succ_iff_lt_or_eq.mp hlen with hlt | heq
    · exact h.creatable q hq (hgap q tail htail hlt) hqfree
    · rw [same htail heq]
      exact .inl hdenied
  · by_cases hloc : loc = locate fs.cwd p
    · refine .inr ⟨hloc ▸ h.free hfree, by simp [Fs.createDir, hloc], p, ⟨hne, hbare, rest, hpath⟩, by omega, hloc.symm⟩
    · have hsame' : (now.createDir (locate fs.cwd p)).node loc = now.node loc := by
        simp [Fs.createDir, Function.update_of_ne hloc]
      rw [hsame']
      rcases h.made loc with hnode | ⟨hlfree, hnode, q, hq, hlen, hl⟩
      · exact .inl hnode
      · exact .inr ⟨hlfree, hnode, q, hq, by omega, hl⟩

def Refused (fs : Fs) (denied : Bytes → Option Errno) (p : Bytes) : Prop :=
  ¬(Clear fs denied p ∧ (fs.Free (locate fs.cwd p) → Creatable fs denied p))

theorem Underway.turn (h : Underway fs denied path n now) (hpath : path = p ++ 47 :: rest) (hn : n ≤ p.length)
    (hgap : ∀ q tail, path = q ++ 47 :: tail → q.length < p.length → q.length < n)
    (hdenied : denied p ≠ some .eexist) :
    (∃ now', makeDir p denied now = .ok now' ∧ Underway fs denied path (p.length + 1) now') ∨
      ∃ e, makeDir p denied now = .error (ascii "cannot create directory " ++ p ++ ascii ": " ++ strerror e) ∧
        p ≠ [] ∧ p.getLast? ≠ some 47 ∧ Refused fs denied p := by
  have hcwd : now.cwd = fs.cwd := h.same.cwd
  have hplain := plain_front h.plain hpath
  by_cases hne : p = []
  · subst hne
    have hn' : n = 0 := by simpa using hn
    subst hn'
    exact .inl ⟨now, rfl, h.skip⟩
  have hkeep (hreach : now.Reaches p) (hstands : ¬now.Free (locate fs.cwd p)) :
      ∃ now', makeDir p denied now = .ok now' ∧ Underway fs denied path (p.length + 1) now' :=
    ⟨now, makeDir_reached hreach (hcwd ▸ hstands), h.keep hpath hn hgap hreach hstands⟩
  by_cases hbare : p.getLast? = some 47
  · -- the text in front of the last slash has had its turn and leads to the same place
    obtain ⟨p', rfl⟩ := List.getLast?_eq_some_iff.mp hbare
    refine .inl ?_
    by_cases hp' : p' = []
    · subst hp'
      refine hkeep ⟨by decide, rfl⟩ fun hfree => ?_
      have hroot : now.isDir (locate now.cwd [47]) = true := isDir_slashes now (by simp) (by decide)
      have hdir := hfree.1
      rw [List.nil_append, ← hcwd, hroot] at hdir
      cases hdir
    · have hfront : path = p' ++ 47 :: 47 :: rest := by simpa using hpath
      obtain ⟨hreach, hstands⟩ := h.found p' hp' (hgap p' _ hfront (by simp)) ⟨_, hfront⟩
      refine hkeep (hreach.slash hp') ?_
      rwa [locate_slash fs.cwd hp']
  · cases hw : now.walk (start now.cwd p) (targetNames p) with
    | error e =>
      refine .inr ⟨e, makeDir_unreached hne hplain hw, hne, hbare, fun hno => ?_⟩
      have hreach := (h.reaches hpath hne hbare hgap hno.1).walks
      rw [hw] at hreach
      cases hreach
    | ok loc =>
      have hreach := Fs.reaches_of_walk (by rwa [cStr_plain hplain]) hw
      by_cases hfree : now.Free (locate fs.cwd p)
      · have hmake := makeDir_free denied hne hplain hreach (hcwd ▸ hfree)
        cases hd : denied p with
        | none =>
          refine .inl ⟨_, by rw [hmake, hd], ?_⟩
          rw [hcwd]
          exact h.make hpath hn hgap hne hbare hreach hfree hd
        | some e =>
          have he : e ≠ .eexist := fun he => hdenied (he ▸ hd)
          refine .inr ⟨e, ?_, hne, hbare, fun hno => ?_⟩
          · rw [hmake, hd]
            cases e <;> first | rfl | exact absurd rfl he
          · rcases hno.2 (h.free hfree) with hnone | ⟨b, hb, hloc⟩
            · rw [hnone] at hd
              cases hd
            · have hb' : Ancestor b path := hb.trans ⟨hne, hbare, rest, hpath⟩
              obtain ⟨tail, htail⟩ := hb'.under
              exact (h.found b hb.ne (hgap b tail htail hb.length) ⟨tail, htail⟩).2 (hloc ▸ hfree)
      · exact .inl (hkeep hreach hfree)

structure Halted (fs : Fs) (denied : Bytes → Option Errno) (path p : Bytes) (now : Fs) : Prop where
  under : ∃ rest, path = p ++ 47 :: rest
  ne : p ≠ []
  bare : p.getLast? ≠ some 47
  before : ∃ n, Underway fs denied path n now ∧ ∀ q tail, path = q ++ 47 :: tail → q.length < p.length → q.length < n
  refused : Refused fs denied p
  error : ∃ text, makeDir p denied now = .error text

inductive Verdict (fs : Fs) (denied : Bytes → Option Errno) (path dir : Bytes) : Option Bytes × Fs → Prop
  | made {now : Fs} (all : Underway fs denied path (dir.length + 1) now) : Verdict fs denied path dir (none, now)
  | halted {now : Fs} {p : Bytes} (e : Errno) (at_p : Halted fs denied path p now) :
      Verdict fs denied path dir (some (ascii "cannot create directory " ++ p ++ ascii ": " ++ strerror e), now)

theorem findFrom_some {c : UInt8} {pos next : ℕ} {s : Bytes} (h : findFrom c pos s = some next) :
    s = s.take next ++ c :: s.drop (next + 1) ∧ ∀ i, pos ≤ i → s[i]? = some c → next ≤ i := by
  obtain ⟨k, hk, rfl⟩ := Option.map_eq_some_iff.mp h
  obtain ⟨l, r, hs, hl, rfl⟩ := find_some hk
  refine ⟨?_, fun i hi hc => ?_⟩
  · have hdrop : s.drop (l.length + pos) = c :: r := by
      rw [Nat.add_comm, ← List.drop_drop, hs, List.drop_left]
    rw [← List.drop_drop, hdrop, List.drop_one, List.tail_cons, ← hdrop, List.take_append_drop]
  · by_contra hlt
    have hi' : (s.drop pos)[i - pos]? = some c := by rw [List.getElem?_drop, Nat.add_sub_cancel' hi, hc]
    rw [hs, List.getElem?_append_left (by omega)] at hi'
    exact hl (List.mem_of_getElem? hi')

theorem findFrom_none {c : UInt8} {pos : ℕ} {s : Bytes} (h : findFrom c pos s = none) {i : ℕ} (hi : pos ≤ i) :
    s[i]? ≠ some c := by
  intro hc
  have hi' : (s.drop pos)[i - pos]? = some c := by rw [List.getElem?_drop, Nat.add_sub_cancel' hi, hc]
  exact not_mem_find (Option.map_eq_none_iff.mp h) (List.mem_of_getElem? hi')

theorem gap_of_no_slash {dir name q tail : Bytes} {pos next : ℕ} (hpath : path = dir ++ 47 :: name)
    (hle : next ≤ dir.length) (hnone : ∀ i, pos ≤ i → i < next → dir[i]? ≠ some 47) (hq : path = q ++ 47 :: tail)
    (hlen : q.length < (dir.take next).length) : q.length < pos := by
  rw [List.length_take] at hlen
  by_contra hge
  apply hnone q.length (by omega) (by omega)
  rw [← @List.getElem?_append_left _ dir (47 :: name) _ (by omega), ← hpath, hq]
  simp

theorem Underway.turn_at (h : Underway fs denied path n now) {dir name : Bytes} {next : ℕ}
    (hpath : path = dir ++ 47 :: name) (hp : path = dir.take next ++ 47 :: rest) (hn : n ≤ next)
    (hle : next ≤ dir.length) (hnone : ∀ i, n ≤ i → i < next → dir[i]? ≠ some 47)
    (hdenied : ∀ built, denied built ≠ some .eexist) :
    (∃ now', makeDir (dir.take next) denied now = .ok now' ∧ Underway fs denied path (next + 1) now') ∨
      ∃ e, makeDir (dir.take next) denied now =
          .error (ascii "cannot create directory " ++ dir.take next ++ ascii ": " ++ strerror e) ∧
        Halted fs denied path (dir.take next) now := by
  have hlen : (dir.take next).length = next := by
    rw [List.length_take]
    omega
  have hgap : ∀ q tail, path = q ++ 47 :: tail → q.length < (dir.take next).length → q.length < n :=
    fun q tail hq hlt => gap_of_no_slash hpath hle hnone hq hlt
  rcases h.turn hp (by omega) hgap (hdenied _) with ⟨now', hmake, hnow'⟩ | ⟨e, he, hne, hbare, hrefused⟩
  · rw [hlen] at hnow'
    exact .inl ⟨now', hmake, hnow'⟩
  · exact .inr ⟨e, he, ⟨rest, hp⟩, hne, hbare, ⟨n, h, hgap⟩, hrefused, _, he⟩

theorem makeDirs_verdict {dir name : Bytes} (hpath : path = dir ++ 47 :: name)
    (hdenied : ∀ built, denied built ≠ some .eexist) (pos : ℕ) (now : Fs) (hpos : pos ≤ dir.length)
    (h : Underway fs denied path pos now) : Verdict fs denied path dir (makeDirs dir denied pos now) := by
  have hlast (pos : ℕ) (now : Fs) (hfind : findFrom 47 pos dir = none) (hpos : pos ≤ dir.length)
      (h : Underway fs denied path pos now) :=
    h.turn_at hpath (by rwa [List.take_length]) hpos le_rfl
      (fun i hi _ => findFrom_none hfind hi) hdenied
  have hmore (pos next : ℕ) (now : Fs) (hfind : findFrom 47 pos dir = some next)
      (h : Underway fs denied path pos now) :=
    have hrange := findFrom_range hfind
    have hp : path = dir.take next ++ 47 :: (dir.drop (next + 1) ++ 47 :: name) := by
      rw [hpath, ← List.cons_append, ← List.append_assoc, ← (findFrom_some hfind).1]
    h.turn_at hpath hp hrange.1 hrange.2.le
      (fun i hi hlt hc => absurd ((findFrom_some hfind).2 i hi hc) (by omega)) hdenied
  fun_induction makeDirs dir denied pos now with
  | case1 pos now hfind error he =>
    rcases hlast pos now hfind hpos h with ⟨now', hmake, -⟩ | ⟨e, hmake, hhalt⟩
    · rw [List.take_length, he] at hmake
      cases hmake
    · rw [List.take_length] at hmake hhalt
      rw [he] at hmake
      cases hmake
      exact .halted e hhalt
  | case2 pos now hfind now' he =>
    rcases hlast pos now hfind hpos h with ⟨now'', hmake, hall⟩ | ⟨e, hmake, hhalt⟩
    · rw [List.take_length, he] at hmake
      cases hmake
      exact .made hall
    · rw [List.take_length, he] at hmake
      cases hmake
  | case3 pos now next hfind error he =>
    rcases hmore pos next now hfind h with ⟨now', hmake, -⟩ | ⟨e, hmake, hhalt⟩
    · rw [he] at hmake
      cases hmake
    · rw [he] at hmake
      cases hmake
      exact .halted e hhalt
  | case4 pos now next hfind now' he ih =>
    rcases hmore pos next now hfind h with ⟨now'', hmake, hall⟩ | ⟨e, hmake, hhalt⟩
    · rw [he] at hmake
      cases hmake
      exact ih (findFrom_range hfind).2 hall
    · rw [he] at hmake
      cases hmake

theorem Underway.clear (h : Underway fs denied path n now) {q : Bytes} (hq : Ancestor q path) (hlen : q.length < n) :
    Clear fs denied q := by
  intro b hb
  have hreach := (h.found q hq.ne hlen hq.under).1
  obtain ⟨tail, htail⟩ := hq.under
  obtain ⟨tail', htail'⟩ := hb.under
  have hplain := plain_front h.plain htail
  have hdir := ((Fs.namesDir_ancestor hb hplain hreach hq.bare).reaches (.inl rfl) hb.ne (plain_front hplain htail')).2
  rw [h.same.cwd] at hdir
  by_cases hold : fs.isDir (locate fs.cwd b) = true
  · exact .inl hold
  · have hfree : fs.Free (locate fs.cwd b) := by
      refine ⟨by simpa using hold, ?_⟩
      rcases h.made (locate fs.cwd b) with hnode | ⟨hfree, -⟩
      · rw [Fs.isDir, hnode] at hdir
        exact absurd hdir hold
      · exact hfree.2
    have hblen := hb.length
    exact .inr ⟨hfree, h.creatable b (hb.trans hq) (by omega) hfree⟩

theorem Underway.changes (h : Underway fs denied (way path) n now) (loc : Loc) :
    now.node loc = fs.node loc ∨ now.node loc = some .dir ∧ Makes fs denied path loc := by
  rcases h.made loc with hnode | ⟨hfree, hnode, q, hq, hlen, rfl⟩
  · exact .inl hnode
  · exact .inr ⟨hnode, hfree, q, hq, rfl, h.creatable q hq hlen hfree, h.clear hq hlen⟩

theorem Underway.fills (h : Underway fs denied path n now) {q : Bytes} (hq : Ancestor q path) (hlen : q.length < n)
    (hfree : fs.Free (locate fs.cwd q)) : now.node (locate fs.cwd q) = some .dir := by
  have hdir := h.filled hfree (h.found q hq.ne hlen hq.under).2
  have hroot : locate fs.cwd q ≠ [] := by
    intro hroot
    have := hfree.1
    rw [hroot, Fs.isDir_root] at this
    cases this
  simpa [Fs.isDir, hroot] using hdir

theorem Refused.stops (h : Refused fs denied p) {q : Bytes} (hp : p = q ∨ Ancestor p q) (hclear : Clear fs denied q)
    (hq : fs.Free (locate fs.cwd q) → Creatable fs denied q) : False := by
  rcases hp with rfl | hp
  · exact h ⟨hclear, hq⟩
  · refine h ⟨fun b hb => hclear b (hb.trans hp), fun hfree => ?_⟩
    rcases hclear p hp with hdir | ⟨-, hcreatable⟩
    · rw [hfree.1] at hdir
      cases hdir
    · exact hcreatable

theorem Halted.ancestor (h : Halted fs denied path p now) : Ancestor p path := ⟨h.ne, h.bare, h.under⟩

theorem ancestor_total {q : Bytes} (hp : Ancestor p path) (hq : Ancestor q path) :
    p.length ≤ q.length → p = q ∨ Ancestor p q := by
  intro hle
  rcases hle.lt_or_eq with hlt | heq
  · exact .inr (ancestor_of_shorter hp hq.under hlt)
  · obtain ⟨rest, hrest⟩ := hp.under
    obtain ⟨rest', hrest'⟩ := hq.under
    exact .inl (List.append_inj (hrest.symm.trans hrest') heq).1

theorem front_length {dir name q : Bytes} (hname : 47 ∉ name) (hq : ∃ rest, dir ++ 47 :: name = q ++ 47 :: rest) :
    q.length ≤ dir.length := by
  obtain ⟨rest, hrest⟩ := hq
  by_contra hlt
  have hat : (dir ++ 47 :: name)[q.length]? = some 47 := by simp [hrest]
  rw [List.getElem?_append_right (by omega)] at hat
  obtain ⟨i, hi⟩ : ∃ i, q.length - dir.length = i + 1 := ⟨q.length - dir.length - 1, by omega⟩
  rw [hi, List.getElem?_cons_succ] at hat
  exact hname (List.mem_of_getElem? hat)

end Steps

end BinderDownload.DownloadService
