import BinderDownload.Service.Parents

namespace BinderDownload.DownloadService

open Text Files

section Cut

variable {fs fs' : Fs} {denied : Bytes → Option Errno} {c built dir rest : Bytes} {pos next : ℕ}

theorem makeDir_error {error : Bytes} (h : makeDir built denied fs = .error error) :
    ∃ e, error = ascii "cannot create directory " ++ built ++ ascii ": " ++ strerror e := by
  unfold makeDir at h
  split_ifs at h
  split at h
  · cases h
  · cases h
  · rename_i e _ _
    cases h
    exact ⟨e, rfl⟩

theorem makeDirs_stopped {error : Bytes} {now : Fs} (h : makeDirs dir denied pos now = (some error, fs)) :
    ∃ p, (p = dir ∨ ∃ rest, dir = p ++ 47 :: rest) ∧ makeDir p denied fs = .error error := by
  fun_induction makeDirs dir denied pos now with
  | case1 pos now hfind error he =>
    cases h
    exact ⟨dir, .inl rfl, he⟩
  | case2 pos now hfind now' he => cases h
  | case3 pos now next hfind error he =>
    cases h
    exact ⟨dir.take next, .inr ⟨_, (findFrom_some hfind).1⟩, he⟩
  | case4 pos now next hfind now' he ih => exact ih h

theorem makeDir_cut (hcut : cStr built = c) (hc : c ≠ []) :
    (∀ fs', makeDir built denied fs = .ok fs' ↔ makeDir c denied fs = .ok fs') := by
  have hne : built ≠ [] := by
    rintro rfl
    exact hc hcut.symm
  have hcc : cStr c = c := hcut ▸ cStr_cStr built
  intro fs'
  unfold makeDir
  rw [if_neg hne, if_neg hc, ← Fs.mkdir_cStr fs built, hcut, hcc]
  rcases fs.mkdir c (denied c) with e | now
  · cases e <;> simp
  · simp

theorem mkdir_again {path : Bytes} {denied denied' : Option Errno} (h : fs.mkdir path denied = .ok fs') :
    fs'.mkdir path denied' = .error .eexist := by
  unfold Fs.mkdir at h
  split_ifs at h with hcut
  cases hw : fs.walk (start fs.cwd path) (targetNames path) with
  | error e => simp [hw] at h
  | ok loc =>
    simp only [hw] at h
    split_ifs at h
    cases denied with
    | some e => simp at h
    | none =>
      simp only [Except.ok.injEq] at h
      subst h
      have hwalk : (fs.createDir loc).walk (start fs.cwd path) (targetNames path) = .ok loc :=
        Fs.walk_isDir (fun _ => createDir_isDir) hw
      have hnode : (fs.createDir loc).node loc ≠ none := by simp [Fs.createDir]
      unfold Fs.mkdir
      rw [if_neg hcut, show (fs.createDir loc).cwd = fs.cwd from rfl, hwalk]
      exact if_pos (.inr hnode)

theorem makeDir_again (h : makeDir c denied fs = .ok fs') : makeDir c denied fs' = .ok fs' := by
  have hturn := h
  unfold makeDir at h
  split_ifs at h with hc
  · simp [makeDir, hc]
  · split at h
    · rename_i now hm
      cases h
      simp only [makeDir, if_neg hc, mkdir_again hm]
    · cases h
      exact hturn
    · cases h

theorem makeDirs_still (h : makeDir dir denied fs = .ok fs)
    (hfront : ∀ next, pos ≤ next → makeDir (dir.take next) denied fs = .ok fs) :
    makeDirs dir denied pos fs = (none, fs) := by
  fun_induction makeDirs dir denied pos fs with
  | case1 pos fs hfind error he =>
    rw [h] at he
    cases he
  | case2 pos fs hfind now he =>
    rw [h] at he
    cases he
    rfl
  | case3 pos fs next hfind error he =>
    rw [hfront next (findFrom_range hfind).1] at he
    cases he
  | case4 pos fs next hfind now he ih =>
    have hrange := findFrom_range hfind
    rw [hfront next hrange.1] at he
    cases he
    exact ih h fun next' hle => hfront next' (by omega)

theorem cStr_front (hplain : (0 : UInt8) ∉ c) (hnext : c.length < next) : cStr ((c ++ 0 :: rest).take next) = c := by
  obtain ⟨k, hk⟩ : ∃ k, next - c.length = k + 1 := ⟨next - c.length - 1, by omega⟩
  rw [List.take_append, List.take_of_length_le hnext.le, hk, cStr_append hplain, List.take_succ_cons]
  simp [cStr]

theorem findFrom_front {s tail : Bytes} {x : UInt8} (hpos : pos ≤ s.length) (h : findFrom x pos s = some next) :
    findFrom x pos (s ++ tail) = some next := by
  unfold findFrom find at h ⊢
  rw [List.drop_append_of_le_length hpos, List.findIdx?_append]
  obtain ⟨i, hi, rfl⟩ := Option.map_eq_some_iff.mp h
  rw [hi]
  rfl

theorem cStr_before (hplain : (0 : UInt8) ∉ c) : cStr (c ++ 0 :: rest) = c := by
  rw [cStr_append hplain]
  simp [cStr]

theorem findFrom_behind (hfind : findFrom 47 pos c = none) (hn : findFrom 47 pos (c ++ 0 :: rest) = some next) :
    c.length < next := by
  have hat : (c ++ 0 :: rest)[next]? = some 47 := by
    have hlt := (findFrom_range hn).2
    have hs := (findFrom_some hn).1
    have hlen : ((c ++ 0 :: rest).take next).length = next := by
      rw [List.length_take]
      omega
    rw [hs, List.getElem?_append_right hlen.le, hlen, Nat.sub_self, List.getElem?_cons_zero]
  by_contra hle
  rcases Nat.lt_or_ge next c.length with hlt | hge
  · rw [List.getElem?_append_left hlt] at hat
    exact findFrom_none hfind (findFrom_range hn).1 hat
  · rw [show next = c.length by omega, List.getElem?_append_right le_rfl, Nat.sub_self] at hat
    simp at hat

theorem makeDirs_last (hplain : (0 : UInt8) ∉ c) (hc : c ≠ []) (hfind : findFrom 47 pos c = none) :
    (∃ fs', makeDir c denied fs = .ok fs' ∧ makeDirs (c ++ 0 :: rest) denied pos fs = (none, fs')) ∨
      ∃ error, (∀ fs', makeDir c denied fs ≠ .ok fs') ∧
        makeDirs (c ++ 0 :: rest) denied pos fs = (some error, fs) := by
  have hwhole : cStr (c ++ 0 :: rest) = c := cStr_before hplain
  unfold makeDirs
  split
  · cases hm : makeDir (c ++ 0 :: rest) denied fs with
    | ok fs' => exact .inl ⟨fs', (makeDir_cut hwhole hc fs').mp hm, rfl⟩
    | error error =>
      refine .inr ⟨error, fun fs' hok => ?_, rfl⟩
      rw [(makeDir_cut hwhole hc fs').mpr hok] at hm
      cases hm
  · rename_i next hn
    have hcut (next' : ℕ) (hle : next ≤ next') : cStr ((c ++ 0 :: rest).take next') = c :=
      cStr_front hplain (Nat.lt_of_lt_of_le (findFrom_behind hfind hn) hle)
    cases hm : makeDir ((c ++ 0 :: rest).take next) denied fs with
    | ok fs' =>
      have hmade := (makeDir_cut (hcut next le_rfl) hc fs').mp hm
      have hagain := makeDir_again hmade
      refine .inl ⟨fs', hmade, makeDirs_still ((makeDir_cut hwhole hc fs').mpr hagain) fun next' hle => ?_⟩
      exact (makeDir_cut (hcut next' (by omega)) hc fs').mpr hagain
    | error error =>
      refine .inr ⟨error, fun fs' hok => ?_, rfl⟩
      rw [(makeDir_cut (hcut next le_rfl) hc fs').mpr hok] at hm
      cases hm

theorem makeDirs_cut (hplain : (0 : UInt8) ∉ c) (hc : c ≠ []) (hpos : pos ≤ c.length) :
    (makeDirs (c ++ 0 :: rest) denied pos fs).2 = (makeDirs c denied pos fs).2 ∧
      ((makeDirs (c ++ 0 :: rest) denied pos fs).1 = none ↔ (makeDirs c denied pos fs).1 = none) := by
  fun_induction makeDirs c denied pos fs with
  | case1 pos fs hfind error he =>
    rcases makeDirs_last hplain hc hfind with ⟨fs', hok, -⟩ | ⟨error', -, hstop⟩
    · rw [he] at hok
      cases hok
    · rw [hstop]
      simp
  | case2 pos fs hfind now he =>
    rcases makeDirs_last hplain hc hfind with ⟨fs', hok, hgo⟩ | ⟨error', hno, -⟩
    · rw [he] at hok
      cases hok
      rw [hgo]
      simp
    · exact absurd he (hno now)
  | case3 pos fs next hfind error he =>
    have hrange := findFrom_range hfind
    have htake : (c ++ 0 :: rest).take next = c.take next := List.take_append_of_le_length hrange.2.le
    have hstop : makeDirs (c ++ 0 :: rest) denied pos fs = (some error, fs) := by
      unfold makeDirs
      split
      · rename_i hn
        rw [findFrom_front hpos hfind] at hn
        cases hn
      · rename_i next' hn
        rw [findFrom_front hpos hfind] at hn
        cases hn
        rw [htake, he]
    rw [hstop]
    simp
  | case4 pos fs next hfind now he ih =>
    have hrange := findFrom_range hfind
    have htake : (c ++ 0 :: rest).take next = c.take next := List.take_append_of_le_length hrange.2.le
    have hgo : makeDirs (c ++ 0 :: rest) denied pos fs = makeDirs (c ++ 0 :: rest) denied (next + 1) now := by
      conv => lhs; unfold makeDirs
      split
      · rename_i hn
        rw [findFrom_front hpos hfind] at hn
        cases hn
      · rename_i next' hn
        rw [findFrom_front hpos hfind] at hn
        cases hn
        rw [htake, he]
    rw [hgo]
    exact ih hrange.2

theorem makeDirs_unnamed (hdir : dir ≠ []) (hcut : cStr dir = []) :
    ∃ error, makeDirs dir denied 0 fs = (some error, fs) := by
  have hunnamed {built : Bytes} (hbuilt : built ≠ []) (hcut : cStr built = []) :
      makeDir built denied fs =
        .error (ascii "cannot create directory " ++ built ++ ascii ": " ++ strerror .enoent) := by
    unfold makeDir
    rw [if_neg hbuilt, Fs.mkdir, if_pos hcut]
  unfold makeDirs
  split
  · rw [hunnamed hdir hcut]
    exact ⟨_, rfl⟩
  · rename_i next hn
    obtain ⟨b, bs, rfl⟩ := List.exists_cons_of_ne_nil hdir
    have hb : b = 0 := by
      by_contra hb
      simp [cStr, hb] at hcut
    have hnext : next ≠ 0 := by
      rintro rfl
      have hs := (findFrom_some hn).1
      simp [hb] at hs
    obtain ⟨k, rfl⟩ := Nat.exists_eq_succ_of_ne_zero hnext
    rw [hunnamed (by simp) (by simp [cStr, hb])]
    exact ⟨_, rfl⟩

end Cut

section Verdicts

variable {fs now : Fs} {denied : Bytes → Option Errno} {path p : Bytes} {slash : ℕ}

inductive Turns (fs : Fs) (denied : Bytes → Option Errno) (path dir : Bytes) (out : Option Bytes × Fs) : Prop
  | unnamed (cut : cStr dir = []) (error : out.1 ≠ none) (same : out.2 = fs)
  | turned {seen : Option Bytes × Fs} (cut : cStr dir ≠ []) (verdict : Verdict fs denied (way path) (cStr dir) seen)
      (same : out.2 = seen.2) (ends : out.1 = none ↔ seen.1 = none)

theorem way_some (hslash : rfind 47 path = some slash) : way path = cStr (path.take slash) ++ [47] := by
  simp only [way, hslash]

theorem ensureParentDir_turns (fs : Fs) (hslash : rfind 47 path = some slash) (hpos : 0 < slash)
    (hdenied : ∀ built, denied built ≠ some .eexist) :
    Turns fs denied path (path.take slash) (ensureParentDir path denied fs) := by
  have hensure : ensureParentDir path denied fs = makeDirs (path.take slash) denied 0 fs := by
    obtain ⟨n, rfl⟩ := Nat.exists_eq_succ_of_ne_zero hpos.ne'
    simp only [ensureParentDir, hslash]
  have hdir : path.take slash ≠ [] := by
    obtain ⟨dir, name, rfl, -, rfl⟩ := rfind_some hslash
    rw [List.take_left]
    exact List.length_pos_iff.mp hpos
  rw [hensure]
  have hway := way_some hslash
  generalize path.take slash = dir at hdir hway ⊢
  by_cases hcut : cStr dir = []
  · obtain ⟨error, hstop⟩ := @makeDirs_unnamed fs denied dir hdir hcut
    rw [hstop]
    exact .unnamed hcut (by simp) rfl
  · have hverdict (c : Bytes) (hc : (0 : UInt8) ∉ c) : Verdict fs denied (c ++ [47]) c (makeDirs c denied 0 fs) :=
      makeDirs_verdict rfl hdenied 0 fs (Nat.zero_le _)
        ⟨by simp [hc], .refl fs, fun q _ hlen => by omega, fun q _ hlen => by omega, fun loc => .inl rfl⟩
    by_cases hnul : (0 : UInt8) ∈ dir
    · obtain ⟨rest, hrest⟩ := cStr_split hnul
      obtain ⟨hsame, hends⟩ := @makeDirs_cut fs denied (cStr dir) rest 0 (not_mem_cStr dir) hcut (Nat.zero_le _)
      rw [← hrest] at hsame hends
      exact .turned hcut (hway ▸ hverdict _ (not_mem_cStr dir)) hsame hends
    · have hplain := cStr_plain hnul
      refine .turned hcut (hway ▸ hverdict _ (not_mem_cStr dir)) ?_ ?_
      · rw [hplain]
      · rw [hplain]

theorem ancestor_way {q : Bytes} (hq : Ancestor q (way path)) : ∃ slash, rfind 47 path = some slash ∧ 0 < slash := by
  obtain ⟨rest, hrest⟩ := hq.under
  cases hslash : rfind 47 path with
  | none => simp [way, hslash] at hrest
  | some slash =>
    refine ⟨slash, rfl, Nat.pos_of_ne_zero ?_⟩
    rintro rfl
    have hlen := congrArg List.length ((way_some hslash).symm.trans hrest)
    have hpos := List.length_pos_iff.mpr hq.ne
    have hcut : cStr ([] : Bytes) = [] := rfl
    simp only [List.take_zero, hcut, List.nil_append, List.length_append, List.length_cons, List.length_nil] at hlen
    omega

theorem ancestor_of_way {q : Bytes} (cwd : Loc) (hq : Ancestor q (way path)) :
    ∃ p, Ancestor p path ∧ locate cwd p = locate cwd q := by
  obtain ⟨slash, hslash, -⟩ := ancestor_way hq
  obtain ⟨rest, hrest⟩ := hq.under
  rw [way_some hslash] at hrest
  obtain ⟨dir, name, rfl, -, rfl⟩ := rfind_some hslash
  rw [List.take_left] at hrest
  rcases List.eq_nil_or_concat rest with rfl | ⟨init, last, rfl⟩
  · obtain ⟨rfl, -⟩ := List.append_inj' hrest rfl
    have hdir : bare dir ≠ [] := by
      intro hb
      obtain ⟨slashes, hslashes, hsplit⟩ := bare_split dir
      rw [hb, List.nil_append] at hsplit
      have hplain : (0 : UInt8) ∉ dir := fun hnul => absurd (hslashes 0 (hsplit ▸ hnul)) (by decide)
      exact hq.bare (by
        rw [cStr_plain hplain]
        obtain ⟨c, hc⟩ : ∃ c, dir.getLast? = some c :=
          ⟨_, List.getLast?_eq_some_getLast (by rw [← cStr_plain hplain]; exact hq.ne)⟩
        rw [hc, hslashes c (hsplit ▸ List.mem_of_getLast? hc)])
    refine ⟨bare dir, ancestor_bare hdir ⟨name, rfl⟩, ?_⟩
    rw [locate_bare cwd hdir, locate_cStr cwd hq.ne]
  · have hlong : q ++ 47 :: init ++ [last] = cStr dir ++ [47] := by simpa using hrest.symm
    obtain ⟨hinit, -⟩ := List.append_inj' hlong rfl
    obtain ⟨tail, htail⟩ := cStr_within dir
    refine ⟨q, ⟨hq.ne, hq.bare, init ++ (tail ++ 47 :: name), ?_⟩, rfl⟩
    rw [← htail, ← hinit]
    simp

variable (fs) (path)

theorem ensureParentDir_changes (hdenied : ∀ built, denied built ≠ some .eexist) (loc : Loc) :
    (ensureParentDir path denied fs).2.node loc = fs.node loc ∨
      (ensureParentDir path denied fs).2.node loc = some .dir ∧ Makes fs denied path loc := by
  by_cases hz : ∀ slash, rfind 47 path = some slash → slash = 0
  · left
    unfold ensureParentDir
    split <;> simp_all
  · push Not at hz
    obtain ⟨slash, hslash, hne⟩ := hz
    cases ensureParentDir_turns fs hslash (Nat.pos_of_ne_zero hne) hdenied with
    | unnamed cut error same => exact .inl (by rw [same])
    | turned cut verdict same ends =>
      rw [same]
      cases verdict with
      | made all => exact all.changes loc
      | halted e at_p =>
        obtain ⟨n, hnow, -⟩ := at_p.before
        exact hnow.changes loc

theorem ensureParentDir_makes (hdenied : ∀ built, denied built ≠ some .eexist) {loc : Loc}
    (h : Makes fs denied path loc) : (ensureParentDir path denied fs).2.node loc = some .dir := by
  obtain ⟨hfree, q, hq, rfl, hcreatable, hclear⟩ := h
  obtain ⟨slash, hslash, hpos⟩ := ancestor_way hq
  have hturns := ensureParentDir_turns fs hslash hpos hdenied
  rw [way_some hslash] at hq
  have hnoslash : 47 ∉ ([] : Bytes) := List.not_mem_nil
  cases hturns with
  | unnamed cut error same =>
    have hlen := front_length hnoslash hq.under
    rw [cut, List.length_nil, Nat.le_zero, List.length_eq_zero_iff] at hlen
    exact absurd hlen hq.ne
  | turned cut verdict same ends =>
    rw [same]
    rw [way_some hslash] at verdict
    cases verdict with
    | made all => exact all.fills hq (Nat.lt_succ_of_le (front_length hnoslash hq.under)) hfree
    | halted e at_p =>
      obtain ⟨n, hnow, hgap⟩ := at_p.before
      rcases Nat.lt_or_ge q.length _ with hlt | hge
      · obtain ⟨rest, hrest⟩ := hq.under
        exact hnow.fills hq (hgap q rest hrest hlt) hfree
      · exact (at_p.refused.stops (ancestor_total at_p.ancestor hq hge) hclear fun _ => hcreatable).elim

end Verdicts

section Establish

variable {fs : Fs} {denied : Bytes → Option Errno} {path : Bytes} {slash : ℕ}

/-- What `ensureParentDir` has to do for a path whose last slash is at position `slash`: it succeeds exactly when the
parent is a directory in the end, a failure names the directory, and nothing but missing directories is made. -/
structure Establishes (fs : Fs) (denied : Bytes → Option Errno) (path : Bytes) (slash : ℕ) : Prop where
  verdict : (ensureParentDir path denied fs).1 = none ↔
    (ensureParentDir path denied fs).2.NamesDir (path.take slash)
  error : ∀ error, (ensureParentDir path denied fs).1 = some error → ∃ p e, (∃ rest, path = p ++ 47 :: rest) ∧
    error = ascii "cannot create directory " ++ p ++ ascii ": " ++ strerror e
  files : fs.SameFiles (ensureParentDir path denied fs).2
  directories : ∀ loc, (ensureParentDir path denied fs).2.node loc = fs.node loc ∨
    fs.Free loc ∧ (ensureParentDir path denied fs).2.node loc = some .dir ∧
      ∃ q, Ancestor q path ∧ locate fs.cwd q = loc

/-- The text in front of the last slash leads to a regular file, and the way there is clear. -/
structure Misled (fs : Fs) (denied : Bytes → Option Errno) (dir : Bytes) : Prop where
  named : cStr dir ≠ []
  blocked : fs.Blocked (locate fs.cwd dir)
  clear : Clear fs denied (bare (cStr dir))

theorem misled_cStr {dir : Bytes} (hne : cStr dir ≠ []) : Misled fs denied (cStr dir) ↔ Misled fs denied dir := by
  constructor
  · rintro ⟨-, hblocked, hclear⟩
    exact ⟨hne, locate_cStr fs.cwd hne ▸ hblocked, cStr_cStr dir ▸ hclear⟩
  · rintro ⟨-, hblocked, hclear⟩
    exact ⟨by rwa [cStr_cStr], by rwa [locate_cStr fs.cwd hne], by rwa [cStr_cStr]⟩

theorem misled_not_dir {now : Fs} {dir : Bytes} (hsame : fs.SameFiles now) (h : Misled fs denied dir) :
    ¬now.NamesDir dir := by
  rintro ⟨loc, hr, hdir⟩
  obtain rfl := Fs.resolve_ok hr
  rw [hsame.cwd] at hdir
  obtain ⟨hno, hsome⟩ := h.blocked
  rcases hnode : fs.node (locate fs.cwd dir) with _ | _ | ino
  · exact hsome hnode
  · simp [Fs.isDir, hnode] at hno
  · have hnow := (hsame.file _ _).mpr hnode
    simp only [Fs.isDir, hnow, hnode] at hdir hno
    simp_all

theorem bare_longest {dir name p : Bytes} (hbare : p.getLast? ≠ some 47)
    (hp : ∃ rest, dir ++ 47 :: name = p ++ 47 :: rest) (hlen : p.length ≤ dir.length) :
    p.length ≤ (bare dir).length := by
  obtain ⟨slashes, hslashes, hdir⟩ := bare_split dir
  obtain ⟨rest, hrest⟩ := hp
  by_contra hlt
  apply hbare
  have hlast : dir[p.length - 1]? = p.getLast? := by
    rw [List.getLast?_eq_getElem?, ← @List.getElem?_append_left _ dir (47 :: name) _ (by omega), hrest,
      List.getElem?_append_left (by omega)]
  rw [← hlast, hdir, List.getElem?_append_right (by omega)]
  have hin : p.length - 1 - (bare dir).length < slashes.length := by
    have := congrArg List.length hdir
    rw [List.length_append] at this
    omega
  rw [List.getElem?_eq_getElem hin, hslashes _ (List.getElem_mem hin)]

theorem bare_ne {dir : Bytes} (fs : Fs) (hdir : dir ≠ []) (h : fs.isDir (locate fs.cwd dir) = false) :
    bare dir ≠ [] := by
  intro hb
  rw [isDir_slashes fs hdir hb] at h
  cases h

theorem Underway.names_iff {dir name : Bytes} {now : Fs}
    (all : Underway fs denied (dir ++ 47 :: name) (dir.length + 1) now) (hdir : dir ≠ []) (hname : 47 ∉ name) :
    now.NamesDir dir ↔ ¬Misled fs denied dir := by
  have hcut := cStr_plain (plain_front all.plain rfl)
  obtain ⟨hreach, hstands⟩ := all.found dir hdir (Nat.lt_succ_self _) ⟨name, rfl⟩
  constructor
  · intro hnames hmis
    exact misled_not_dir all.same hmis hnames
  · intro hno
    by_contra hnames
    have hnow : now.isDir (locate now.cwd dir) = false := by
      by_contra hd
      exact hnames (hreach.namesDir (by simpa using hd))
    have hanc : Ancestor (bare dir) (dir ++ 47 :: name) := ancestor_bare (bare_ne now hdir hnow) ⟨name, rfl⟩
    rw [all.same.cwd] at hnow
    have hold : fs.isDir (locate fs.cwd dir) = false := by
      by_contra hd
      rw [all.isDir (by simpa using hd)] at hnow
      cases hnow
    have hclear := all.clear hanc (Nat.lt_succ_of_le (front_length hname hanc.under))
    refine hno ⟨by rwa [hcut], ⟨hold, fun hnone => ?_⟩, by rwa [hcut]⟩
    rw [all.filled ⟨hold, hnone⟩ hstands] at hnow
    cases hnow

theorem Halted.names_not {dir name p : Bytes} {now : Fs} (h : Halted fs denied (dir ++ 47 :: name) p now)
    (hname : 47 ∉ name) : ¬now.NamesDir dir := by
  intro hnames
  obtain ⟨n, hunder, -⟩ := h.before
  obtain ⟨tail, htail⟩ := h.under
  have hlead : p = dir ∨ ∃ rest, dir = p ++ 47 :: rest := by
    rcases (front_length hname h.under).lt_or_eq with hlt | heq
    · exact .inr (ancestor_of_shorter h.ancestor ⟨name, rfl⟩ hlt).under
    · obtain ⟨rest, hrest⟩ := h.under
      exact .inl (List.append_inj hrest heq.symm).1.symm
  obtain ⟨hreach, hpdir⟩ := hnames.reaches hlead h.ne (plain_front hunder.plain htail)
  obtain ⟨text, htext⟩ := h.error
  rw [makeDir_reached hreach (fun hfree => by rw [hfree.1] at hpdir; cases hpdir)] at htext
  cases htext

theorem Halted.not_misled {dir name p : Bytes} {now : Fs} (h : Halted fs denied (dir ++ 47 :: name) p now)
    (hdir : dir ≠ []) (hname : 47 ∉ name) : ¬Misled fs denied dir := by
  rintro ⟨-, hblocked, hclear⟩
  obtain ⟨n, hunder, -⟩ := h.before
  rw [cStr_plain (plain_front hunder.plain rfl)] at hclear
  have hb : Files.bare dir ≠ [] := bare_ne fs hdir hblocked.1
  have hanc : Ancestor (Files.bare dir) (dir ++ 47 :: name) := ancestor_bare hb ⟨name, rfl⟩
  have hlong := bare_longest h.bare h.under (front_length hname h.under)
  refine h.refused.stops (ancestor_total h.ancestor hanc hlong) hclear ?_
  intro hfree
  rw [locate_bare fs.cwd hb] at hfree
  exact absurd hfree.2 hblocked.2

theorem namesDir_cStr (dir : Bytes) : fs.NamesDir (cStr dir) ↔ fs.NamesDir dir := by
  unfold Fs.NamesDir
  rw [Fs.resolve_cStr]

theorem misled_iff (hslash : rfind 47 path = some slash) (hpos : 0 < slash)
    (hdenied : ∀ built, denied built ≠ some .eexist) :
    ((ensureParentDir path denied fs).1 = none ↔ (ensureParentDir path denied fs).2.NamesDir (path.take slash)) ↔
      ¬Misled fs denied (path.take slash) := by
  have hnoslash : 47 ∉ ([] : Bytes) := List.not_mem_nil
  cases ensureParentDir_turns fs hslash hpos hdenied with
  | unnamed cut error same =>
    have hnames : ¬(ensureParentDir path denied fs).2.NamesDir (path.take slash) := by
      rintro ⟨loc, hr, -⟩
      exact Fs.resolve_ne hr cut
    simp [error, hnames, show ¬Misled fs denied (path.take slash) from fun h => h.named cut]
  | turned cut verdict same ends =>
    rw [way_some hslash] at verdict
    rw [ends, same, ← namesDir_cStr, ← misled_cStr cut]
    cases verdict with
    | made all =>
      rw [← all.names_iff cut hnoslash]
      simp
    | halted e at_p => simp [at_p.names_not hnoslash, at_p.not_misled cut hnoslash]

theorem ensureParentDir_error {error : Bytes} (hslash : rfind 47 path = some slash)
    (h : (ensureParentDir path denied fs).1 = some error) : ∃ p e, (∃ rest, path = p ++ 47 :: rest) ∧
      error = ascii "cannot create directory " ++ p ++ ascii ": " ++ strerror e := by
  obtain ⟨dir, name, rfl, -, rfl⟩ := rfind_some hslash
  unfold ensureParentDir at h
  rw [hslash] at h
  split at h
  · cases h
  · cases h
  · rename_i slash hsome
    cases hsome
    rw [List.take_left] at h
    obtain ⟨p, hp, hstop⟩ := makeDirs_stopped (Prod.ext h rfl)
    obtain ⟨e, he⟩ := makeDir_error hstop
    refine ⟨p, e, ?_, he⟩
    rcases hp with rfl | ⟨rest, rfl⟩
    · exact ⟨name, rfl⟩
    · exact ⟨rest ++ 47 :: name, by simp⟩

theorem ensureParentDir_establishes (hslash : rfind 47 path = some slash) (hpos : 0 < slash)
    (hdenied : ∀ built, denied built ≠ some .eexist) :
    Establishes fs denied path slash ↔ ¬Misled fs denied (path.take slash) := by
  constructor
  · intro h
    exact (misled_iff hslash hpos hdenied).mp h.verdict
  · intro h
    refine ⟨(misled_iff hslash hpos hdenied).mpr h, fun error herror => ?_, ensureParentDir_sameFiles path denied fs,
      fun loc => ?_⟩
    · exact ensureParentDir_error hslash herror
    · rcases ensureParentDir_changes fs path hdenied loc with hsame | ⟨hdir, hfree, q, hq, hloc, -⟩
      · exact .inl hsame
      · obtain ⟨p, hp, hplace⟩ := ancestor_of_way fs.cwd hq
        exact .inr ⟨hfree, hdir, p, hp, hplace.trans hloc⟩

theorem ensureParentDir_establishes_nested :
    Establishes (Fs.lone (ascii "a") []) (fun _ => none) (ascii "d/e//f") 4 :=
  (ensureParentDir_establishes (by decide) (by decide) (by simp)).mpr (fun h => absurd h.blocked (by decide))

theorem ensureParentDir_onto_file : ¬Establishes (Fs.lone (ascii "a") []) (fun _ => none) (ascii "a/b") 1 := by
  intro h
  have hnone : (ensureParentDir (ascii "a/b") (fun _ => none) (Fs.lone (ascii "a") [])).1 = none := by decide +kernel
  obtain ⟨loc, hr, hdir⟩ := h.verdict.mp hnone
  have hfile : (ensureParentDir (ascii "a/b") (fun _ => none) (Fs.lone (ascii "a") [])).2.isDir
      (locate (ensureParentDir (ascii "a/b") (fun _ => none) (Fs.lone (ascii "a") [])).2.cwd ((ascii "a/b").take 1)) =
        false := by decide +kernel
  rw [Fs.resolve_ok hr, hfile] at hdir
  cases hdir

end Establish

end BinderDownload.DownloadService
