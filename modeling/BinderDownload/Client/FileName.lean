import BinderDownload.Http.UrlParts

namespace BinderDownload.Client

open Text Http

def fileNameFromUrl (url : Bytes) : Bytes :=
  let start := match findText (ascii "://") url with
    | none => 0
    | some pos => pos + 3
  let path := match findFirstOf (ascii "?#") (url.drop start) with
    | none => url.drop start
    | some query => (url.drop start).take query
  let name := match rfind 47 path with
    | none => []
    | some slash => path.drop (slash + 1)
  if name = [] then ascii "download.bin" else name

def lastSegment (target : Bytes) : Bytes := behind 47 (upTo 63 target)

def inPath (c : UInt8) : Bool := !(ascii "?#").contains c

theorem cut_takeWhile (s : Bytes) :
    (match findFirstOf (ascii "?#") s with | none => s | some query => s.take query) = s.takeWhile inPath := by
  have hcut : findFirstOf (ascii "?#") s = s.findIdx? (fun c => !inPath c) := by simp [findFirstOf, inPath]
  rw [hcut, List.takeWhile_eq_take_findIdx_not]
  cases h : s.findIdx? (fun c => !inPath c) with
  | none =>
    have hend := List.findIdx_eq_length.mpr (fun c hc => List.findIdx?_eq_none_iff.mp h c hc)
    rw [hend, List.take_length]
  | some query => rw [(List.findIdx?_eq_some_iff_findIdx_eq.mp h).2]

theorem fileNameFromUrl_eq (url : Bytes) (start : ℕ)
    (hstart : (match findText (ascii "://") url with | none => 0 | some pos => pos + 3) = start) :
    fileNameFromUrl url =
      if 47 ∈ (url.drop start).takeWhile inPath ∧ behind 47 ((url.drop start).takeWhile inPath) ≠ [] then
        behind 47 ((url.drop start).takeWhile inPath)
      else ascii "download.bin" := by
  unfold fileNameFromUrl
  dsimp only
  rw [hstart, cut_takeWhile]
  cases hslash : rfind 47 ((url.drop start).takeWhile inPath) with
  | none =>
    dsimp only
    simp [not_mem_rfind hslash]
  | some slash =>
    obtain ⟨l, r, hsplit, hr, -⟩ := rfind_some hslash
    have hmem : (47 : UInt8) ∈ (url.drop start).takeWhile inPath := by
      rw [hsplit]
      simp
    simp only [behind_rfind hslash]
    by_cases hempty : behind 47 ((url.drop start).takeWhile inPath) = []
    · simp [hempty]
    · simp [hempty, hmem]

theorem fileNameFromUrl_plain (url : Bytes) : fileNameFromUrl url ≠ [] ∧ 47 ∉ fileNameFromUrl url := by
  rw [fileNameFromUrl_eq url _ rfl]
  split_ifs with hname
  · exact ⟨hname.2, not_mem_behind 47 _⟩
  · exact ⟨by decide, by decide⟩

theorem behind_front (l r : Bytes) : behind 47 (l ++ 47 :: r) = behind 47 r := by
  by_cases hr : (47 : UInt8) ∈ r
  · obtain ⟨as, bs, rfl, hbs⟩ := split_last hr
    rw [behind_split as hbs, ← List.cons_append, ← List.append_assoc, behind_split _ hbs]
  · rw [behind_split l hr, behind_self hr]

theorem upTo_upTo (s : Bytes) : upTo 63 (upTo 35 s) = s.takeWhile inPath := by
  rw [upTo, upTo, List.takeWhile_takeWhile]
  congr 1
  funext c
  by_cases h : c = 63 <;> simp [inPath, ascii, h]

theorem delimits_iff (c : UInt8) : delimits c = true ↔ c = 47 ∨ c = 63 ∨ c = 35 := by simp [delimits, ascii]

theorem inPath_iff (c : UInt8) : inPath c = true ↔ c ≠ 63 ∧ c ≠ 35 := by simp [inPath, ascii]

theorem inPath_clean {c : UInt8} (h : delimits c = false) : inPath c = true ∧ c ≠ 47 := by
  have hnot := (delimits_iff c).not.mp (by simp [h])
  rw [not_or, not_or] at hnot
  exact ⟨(inPath_iff c).mpr hnot.2, hnot.1⟩

theorem path_missing {rest : Bytes} (h : ∀ c ∈ rest.head?, delimits c = true) (hslash : rest.head? ≠ some 47) :
    rest.takeWhile inPath = [] := by
  cases rest with
  | nil => rfl
  | cons c rest =>
    have hc : c ≠ 47 := fun hc => hslash (by rw [hc]; rfl)
    apply List.takeWhile_cons_of_neg
    rw [inPath_iff]
    rintro ⟨hquery, hfragment⟩
    rcases (delimits_iff c).mp (h c rfl) with hslash | hq | hf
    · exact hc hslash
    · exact hquery hq
    · exact hfragment hf

theorem lastSegment_target {rest : Bytes} (h : ∀ c ∈ rest.head?, delimits c = true) :
    lastSegment (targetOf rest) = if rest.head? = some 47 then behind 47 (rest.takeWhile inPath) else [] := by
  unfold lastSegment targetOf
  rw [upTo_upTo]
  split_ifs with hslash
  · rfl
  · have hpath : (47 :: rest).takeWhile inPath = [47] := by
      rw [List.takeWhile_cons_of_pos (by decide), path_missing h hslash]
    rw [hpath]
    decide

theorem fileNameFromUrl_target {text : Bytes} {url : Url} (htext : Trimmed text) (h : parseUrl text = some url) :
    fileNameFromUrl text =
        (if lastSegment url.target = [] then ascii "download.bin" else lastSegment url.target) ∧
      fileNameFromUrl text ≠ [] ∧ 47 ∉ fileNameFromUrl text := by
  refine ⟨?_, fileNameFromUrl_plain text⟩
  obtain ⟨scheme, authority, rest, hcut, hauthority, hrest, hknown, hassemble⟩ := parseUrl_some h
  obtain ⟨split, -, -, -, rfl⟩ := assemble_some hassemble
  rw [trim_trimmed text htext] at hcut
  have hstart : (match findText (ascii "://") text with | none => 0 | some pos => pos + 3) = scheme.length + 3 := by
    have hfind : findText (ascii "://") text = some scheme.length := by
      rw [hcut]
      exact findText_split scheme (authority ++ rest) (known_no_colon hknown)
    rw [hfind]
  have hdrop : text.drop (scheme.length + 3) = authority ++ rest := by
    rw [hcut, ← List.append_assoc, List.drop_left' (by simp [ascii])]
  have hpath : (authority ++ rest).takeWhile inPath = authority ++ rest.takeWhile inPath :=
    List.takeWhile_append_of_pos (fun c hc => (inPath_clean (hauthority c hc)).1)
  rw [fileNameFromUrl_eq text _ hstart, hdrop, hpath, lastSegment_target hrest]
  by_cases hslash : rest.head? = some 47
  · obtain ⟨tail, rfl⟩ := List.head?_eq_some_iff.mp hslash
    have htail : (47 :: tail).takeWhile inPath = 47 :: tail.takeWhile inPath :=
      List.takeWhile_cons_of_pos (by decide)
    rw [htail, behind_front, if_pos hslash]
    have hfront : behind 47 (47 :: tail.takeWhile inPath) = behind 47 (tail.takeWhile inPath) :=
      behind_front [] _
    rw [hfront]
    by_cases hempty : behind 47 (tail.takeWhile inPath) = []
    · simp [hempty]
    · simp [hempty]
  · -- without a path there is no slash behind the scheme, and the server asks for the root
    have hnone : 47 ∉ authority := fun hc => (inPath_clean (hauthority 47 hc)).2 rfl
    rw [path_missing hrest hslash, List.append_nil, if_neg hslash, if_neg (fun hc => hnone hc.1), if_pos rfl]

theorem fileNameFromUrl_target_query :
    fileNameFromUrl (ascii "http://u@h:8080/a/b.txt?x=/y#z") = ascii "b.txt" := by
  have hurl : parseUrl (ascii "http://u@h:8080/a/b.txt?x=/y#z") =
      some ⟨ascii "http", ascii "h", ascii "8080", ascii "/a/b.txt?x=/y"⟩ := by decide +kernel
  have hname : lastSegment (ascii "/a/b.txt?x=/y") = ascii "b.txt" := by decide +kernel
  rw [(fileNameFromUrl_target (by decide +kernel) hurl).1, hname]
  exact if_neg (by decide)

end BinderDownload.Client
