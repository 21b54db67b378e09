import BinderDownload.Http.UrlParts

namespace BinderDownload.Http

open Text

variable {text location : Bytes} {base : Url}

theorem Url.Origin.retarget (h : base.Origin) (target : Bytes) : { base with target }.Origin :=
  ⟨h.scheme, h.host_ne, h.host, h.bracket, h.port_ne, h.port⟩

theorem parseUrl_printable (hbase : parseUrl text = some base) (htext : 91 ∉ text ∧ 93 ∉ text) :
    Printable base.host := by
  constructor
  · intro _ hclose
    exact htext.2 (parseUrl_host_mem hbase hclose)
  · intro hopen
    exact absurd (parseUrl_host_mem hbase (List.mem_of_head? hopen)) htext.1

theorem parseUrl_retarget (hbase : parseUrl text = some base) (htext : 91 ∉ text ∧ 93 ∉ text) {target : Bytes}
    (hhead : target.head? = some 47) (hlast : ∀ c ∈ target.getLast?, isspace c = false) :
    parseUrl (Url.toString { base with target }) = some { base with target := upTo 35 target } := by
  have horigin := (parseUrl_origin hbase).retarget target
  have hprint : Printable base.host := parseUrl_printable hbase htext
  have hsame : target.rdropWhile isspace = target := by
    apply List.rdropWhile_eq_self_iff.mpr
    intro hne
    simpa using hlast _ (List.getLast?_eq_getLast_of_ne_nil hne)
  rw [parseUrl_toString horigin hhead, assemble_printed horigin hprint, hsame]

theorem parseUrl_slash (hhead : (trim text).head? = some 47) : parseUrl text = none := by
  cases hp : parseUrl text with
  | none => rfl
  | some url =>
    obtain ⟨scheme, authority, rest, htext, -, -, hknown, -⟩ := parseUrl_some hp
    obtain ⟨-, hlower⟩ := known_class hknown
    rw [htext, List.head?_append] at hhead
    cases scheme with
    | nil => cases hlower
    | cons c cs =>
      obtain rfl : c = 47 := by simpa using hhead
      revert hlower
      simp [toLower, tolower]

theorem trim_ends (s : Bytes) : Trimmed (trim s) := strip_ends s

theorem resolveRedirect_path (text location : Bytes) (base : Url) (hbase : parseUrl text = some base)
    (htext : 91 ∉ text ∧ 93 ∉ text) (hpath : (trim location).head? = some 47) :
    parseUrl (resolveRedirect base location) = some { base with target := upTo 35 (trim location) } ↔
      ¬ascii "://" <:+: trim location := by
  have hne : trim location ≠ [] := by
    intro hnil
    rw [hnil] at hpath
    cases hpath
  constructor
  · intro hsome hinfix
    have habsolute : resolveRedirect base location = trim location := by
      simp only [resolveRedirect, if_neg hne, findText_infix.mpr hinfix, if_true]
    rw [habsolute, parseUrl_slash (by rw [trim_trimmed _ (trim_ends location)]; exact hpath)] at hsome
    cases hsome
  · intro hinfix
    have hnext : resolveRedirect base location = Url.toString { base with target := trim location } := by
      simp only [resolveRedirect, if_neg hne, findText_infix, if_neg hinfix, if_pos hpath]
    rw [hnext]
    exact parseUrl_retarget hbase htext hpath (trim_ends location).2

theorem resolveRedirect_path_query :
    parseUrl (resolveRedirect ⟨ascii "http", ascii "h", ascii "8080", ascii "/a"⟩ (ascii " /b?next=/c#d ")) =
      some ⟨ascii "http", ascii "h", ascii "8080", ascii "/b?next=/c"⟩ := by
  have hbase : parseUrl (ascii "http://h:8080/a") = some ⟨ascii "http", ascii "h", ascii "8080", ascii "/a"⟩ := by
    decide +kernel
  exact (resolveRedirect_path _ (ascii " /b?next=/c#d ") _ hbase (by decide +kernel) (by decide +kernel)).mpr
    (by decide +kernel)

theorem resolveRedirect_nested :
    parseUrl (ascii "http://h/a") = some ⟨ascii "http", ascii "h", ascii "80", ascii "/a"⟩ ∧
      parseUrl (resolveRedirect ⟨ascii "http", ascii "h", ascii "80", ascii "/a"⟩ (ascii "/b?next=http://x/y")) =
        none := by
  decide +kernel

theorem through_path {target : Bytes} (hhead : target.head? = some 47) :
    through 47 target = through 47 (upTo 63 target) ↔ 47 ∉ target.dropWhile (fun c => c != 63) := by
  have hsplit : upTo 63 target ++ target.dropWhile (fun c => c != 63) = target := List.takeWhile_append_dropWhile
  have hroot : 47 ∈ upTo 63 target := by
    obtain ⟨cs, rfl⟩ := List.head?_eq_some_iff.mp hhead
    rw [upTo_cons (by decide)]
    exact List.mem_cons_self
  constructor
  · intro hsame hquery
    rw [← hsplit, through_append hquery, hsplit] at hsame
    have hlength := congrArg List.length hsame
    have hle := (List.rdropWhile_prefix (fun b => b != 47) (upTo 63 target)).length_le
    have hpos : 0 < (through 47 (target.dropWhile (fun c => c != 63))).length :=
      List.length_pos_iff.mpr (fun hnil => by simpa [hnil] using mem_through_getLast hquery)
    rw [List.length_append] at hlength
    unfold through at hlength hpos
    omega
  · intro hquery
    rw [← hsplit, through_front hroot hquery, hsplit]

theorem resolveRedirect_relative (text location : Bytes) (base : Url) (hbase : parseUrl text = some base)
    (htext : 91 ∉ text ∧ 93 ∉ text) (hne : location ≠ []) (hblank : ∀ c ∈ location, isspace c = false)
    (hhead : ∀ c ∈ location.head?, delimits c = false) (habsolute : ¬ascii "://" <:+: location) :
    parseUrl (resolveRedirect base location) =
        some { base with target := through 47 (upTo 63 base.target) ++ upTo 35 location } ↔
      47 ∉ base.target.dropWhile (fun c => c != 63) := by
  have htrim : trim location = location :=
    trim_trimmed _ ⟨fun c hc => hblank c (List.mem_of_head? hc), fun c hc => hblank c (List.mem_of_getLast? hc)⟩
  have hslash : location.head? ≠ some 47 := by
    intro hc
    have hdelimits := hhead 47 hc
    revert hdelimits
    decide
  have hroot : 47 ∈ base.target := List.mem_of_head? (parseUrl_target hbase)
  obtain ⟨lastSlash, hlast⟩ : ∃ i, rfind 47 base.target = some i := by
    cases hr : rfind 47 base.target with
    | none => exact absurd hroot (not_mem_rfind hr)
    | some i => exact ⟨i, rfl⟩
  have hdir : (through 47 base.target).head? = some 47 := by
    obtain ⟨cs, hcs⟩ := List.head?_eq_some_iff.mp (parseUrl_target hbase)
    rw [hcs]
    exact rdropWhile_head (by decide) cs
  have hnext : resolveRedirect base location =
      Url.toString { base with target := through 47 base.target ++ location } := by
    simp only [resolveRedirect, htrim, if_neg hne, findText_infix, if_neg habsolute, if_neg hslash, hlast,
      through_rfind hlast]
  have hhash : 35 ∉ through 47 base.target :=
    fun hc => parseUrl_no_hash hbase ((List.rdropWhile_prefix _ _).subset hc)
  rw [hnext, parseUrl_retarget hbase htext (by rw [List.head?_append, hdir]; rfl), upTo_split _ _ hhash]
  · rw [← through_path (parseUrl_target hbase)]
    constructor
    · intro hsome
      exact List.append_cancel_right (congrArg Url.target (Option.some.inj hsome))
    · intro hsame
      rw [hsame]
  · intro c hc
    rw [List.getLast?_append_of_ne_nil _ hne] at hc
    exact hblank c (List.mem_of_getLast? hc)

theorem resolveRedirect_relative_sibling :
    parseUrl (resolveRedirect ⟨ascii "http", ascii "h", ascii "80", ascii "/a/b?c"⟩ (ascii "d/e?f=/g#h")) =
      some ⟨ascii "http", ascii "h", ascii "80", ascii "/a/d/e?f=/g"⟩ := by
  have hbase : parseUrl (ascii "http://h/a/b?c") = some ⟨ascii "http", ascii "h", ascii "80", ascii "/a/b?c"⟩ := by
    decide +kernel
  exact (resolveRedirect_relative _ (ascii "d/e?f=/g#h") _ hbase (by decide +kernel) (by decide) (by decide +kernel)
    (by decide +kernel) (by decide +kernel)).mpr (by decide +kernel)

theorem resolveRedirect_query_slash :
    parseUrl (ascii "http://h/a/b?c=/d") = some ⟨ascii "http", ascii "h", ascii "80", ascii "/a/b?c=/d"⟩ ∧
      parseUrl (resolveRedirect ⟨ascii "http", ascii "h", ascii "80", ascii "/a/b?c=/d"⟩ (ascii "e")) =
        some ⟨ascii "http", ascii "h", ascii "80", ascii "/a/b?c=/e"⟩ := by decide +kernel

end BinderDownload.Http
