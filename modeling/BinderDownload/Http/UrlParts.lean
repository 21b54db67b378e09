import BinderDownload.Lib.Cut
import BinderDownload.Http.RequestGrammar

namespace BinderDownload.Http

open Text

def delimits (c : UInt8) : Bool := (ascii "/?#").contains c

def isKnown (scheme : Bytes) : Prop := scheme = ascii "http" ∨ scheme = ascii "https"

instance : DecidablePred isKnown := fun _ => inferInstanceAs (Decidable (_ ∨ _))

def defaultPort (scheme : Bytes) : Bytes := if scheme = ascii "https" then ascii "443" else ascii "80"

def targetOf (rest : Bytes) : Bytes := upTo 35 (if rest.head? = some 47 then rest else 47 :: rest)

def assemble (scheme hostPort target : Bytes) : Option Url :=
  if hostPort = [] then none
  else (splitHostPort hostPort).bind (fun split =>
    let port := if split.2 = [] then defaultPort scheme else split.2
    if split.1 ≠ [] ∧ port.all (isDigit 10) then some ⟨scheme, split.1, port, target⟩ else none)

theorem assemble_guard (scheme hostPort target : Bytes) :
    ((guard (hostPort ≠ []) : Option Unit).bind fun _ => (splitHostPort hostPort).bind fun split =>
      (guard (split.1 ≠ []) : Option Unit).bind fun _ =>
        (guard ((if split.2 = [] then defaultPort scheme else split.2).all (isDigit 10)) : Option Unit).bind fun _ =>
          some ⟨scheme, split.1, if split.2 = [] then defaultPort scheme else split.2, target⟩) =
      assemble scheme hostPort target := by
  unfold assemble
  by_cases hempty : hostPort = []
  · simp [hempty, guard]
  · cases splitHostPort hostPort with
    | none => simp [hempty, guard]
    | some split =>
      simp only [guard, ne_eq, hempty, not_false_eq_true, if_true, Option.bind_some, if_false]
      by_cases hhost : split.1 = []
      · simp [hhost]
      · by_cases hdigits : (if split.2 = [] then defaultPort scheme else split.2).all (isDigit 10) = true
        · simp [hhost, hdigits]
        · simp [hhost, hdigits]

theorem parseUrl_assemble {text scheme authority rest : Bytes}
    (htext : trim text = scheme ++ (ascii "://" ++ (authority ++ rest))) (hscheme : 58 ∉ scheme)
    (hauthority : ∀ c ∈ authority, delimits c = false) (hrest : ∀ c ∈ rest.head?, delimits c = true) :
    parseUrl text =
      if isKnown (toLower scheme) then assemble (toLower scheme) (behind 64 authority) (targetOf rest) else none := by
  have hfind : findText (ascii "://") (trim text) = some scheme.length := by
    rw [htext]
    exact findText_split scheme (authority ++ rest) hscheme
  have htake : (trim text).take scheme.length = scheme := by rw [htext, List.take_left]
  have hdrop : (trim text).drop (scheme.length + 3) = authority ++ rest := by
    rw [htext, ← List.append_assoc, List.drop_left' (by simp [ascii])]
  have hend : (findFirstOf (ascii "/?#") (authority ++ rest)).getD (authority ++ rest).length = authority.length :=
    first_split hauthority hrest
  have hlead : (if (if authority.length < (authority ++ rest).length then rest else ascii "/").head? = some 47 then
        (if authority.length < (authority ++ rest).length then rest else ascii "/")
      else ascii "/" ++ (if authority.length < (authority ++ rest).length then rest else ascii "/")) =
      if rest.head? = some 47 then rest else 47 :: rest := by
    cases rest with
    | nil => simp [ascii]
    | cons c rest => simp [ascii]
  simp only [parseUrl, hfind, htake, hdrop, hend, List.take_left, List.drop_left, Option.bind_eq_bind,
    Option.bind_some, hlead]
  by_cases hknown : isKnown (toLower scheme)
  · rw [if_pos hknown, targetOf]
    have hguard : (guard (toLower scheme = ascii "http" ∨ toLower scheme = ascii "https") : Option Unit) = some () :=
      if_pos hknown
    simp only [hguard, Option.bind_some]
    generalize (if rest.head? = some 47 then rest else 47 :: rest) = lead
    cases hat : rfind 64 authority with
    | none =>
      rw [behind_self (not_mem_rfind hat)]
      cases hhash : find 35 lead with
      | none =>
        rw [upTo_self (not_mem_find hhash)]
        exact assemble_guard _ _ _
      | some fragment =>
        rw [← upTo_find hhash]
        exact assemble_guard _ _ _
    | some pos =>
      rw [← behind_rfind hat]
      cases hhash : find 35 lead with
      | none =>
        rw [upTo_self (not_mem_find hhash)]
        exact assemble_guard _ _ _
      | some fragment =>
        rw [← upTo_find hhash]
        exact assemble_guard _ _ _
  · have hguard : (guard (toLower scheme = ascii "http" ∨ toLower scheme = ascii "https") : Option Unit) = none :=
      if_neg hknown
    rw [if_neg hknown, hguard, Option.bind_none]

theorem known_no_colon {scheme : Bytes} (h : isKnown (toLower scheme)) : 58 ∉ scheme := by
  intro hc
  have hmem : (58 : UInt8) ∈ toLower scheme := List.mem_map.mpr ⟨58, hc, rfl⟩
  rcases h with h | h
  · rw [h] at hmem
    revert hmem
    decide
  · rw [h] at hmem
    revert hmem
    decide

theorem parseUrl_some {text : Bytes} {url : Url} (h : parseUrl text = some url) :
    ∃ scheme authority rest, trim text = scheme ++ (ascii "://" ++ (authority ++ rest)) ∧
      (∀ c ∈ authority, delimits c = false) ∧ (∀ c ∈ rest.head?, delimits c = true) ∧
      isKnown (toLower scheme) ∧ assemble (toLower scheme) (behind 64 authority) (targetOf rest) = some url := by
  have hparts := h
  simp only [parseUrl, Option.bind_eq_bind, Option.bind_eq_some_iff] at hparts
  obtain ⟨schemeEnd, hfind, _, hguard, -⟩ := hparts
  have hknown : isKnown (toLower ((trim text).take schemeEnd)) := by
    by_contra hknown
    exact absurd (hguard.symm.trans (if_neg hknown)) (by simp)
  obtain ⟨authority, rest, hcut, hauthority, hrest⟩ :=
    first_cut delimits ((trim text).drop (schemeEnd + (ascii "://").length))
  have htext := findText_some hfind
  rw [hcut] at htext
  rw [parseUrl_assemble htext (known_no_colon hknown) hauthority hrest, if_pos hknown] at h
  exact ⟨_, authority, rest, htext, hauthority, hrest, hknown, h⟩

section Split

variable {hostPort host port rest : Bytes}

theorem splitHostPort_literal (h : 93 ∉ host) :
    splitHostPort (91 :: (host ++ 93 :: rest)) = some (host, if rest.head? = some 58 then rest.drop 1 else []) := by
  have hfind : find 93 (91 :: (host ++ 93 :: rest)) = some (host.length + 1) := by
    rw [← List.cons_append]
    exact find_split 93 (91 :: host) rest (by simpa using h)
  have hrest : (91 :: (host ++ 93 :: rest)).drop (host.length + 1 + 1) = rest := by
    simp [List.drop_append]
  simp only [splitHostPort, List.head?_cons, if_true, hfind, hrest]
  simp [List.take_succ_cons]

theorem splitHostPort_open (hhead : hostPort.head? = some 91) (h : 93 ∉ hostPort) : splitHostPort hostPort = none := by
  simp only [splitHostPort, hhead, if_true, find_none 93 hostPort h]

theorem splitHostPort_bare (hhead : hostPort.head? ≠ some 91) (h : 58 ∉ hostPort) :
    splitHostPort hostPort = some (hostPort, []) := by
  simp only [splitHostPort, if_neg hhead, rfind_none 58 hostPort h]

theorem splitHostPort_port (hhead : (host ++ 58 :: port).head? ≠ some 91) (h : 58 ∉ port) :
    splitHostPort (host ++ 58 :: port) = some (host, port) := by
  simp only [splitHostPort, if_neg hhead, rfind_split 58 host port h, List.take_left]
  simp [List.drop_append]

theorem splitHostPort_cases {split : Bytes × Bytes} (h : splitHostPort hostPort = some split) :
    (∃ rest, hostPort = 91 :: (split.1 ++ 93 :: rest) ∧ 93 ∉ split.1 ∧
        split.2 = if rest.head? = some 58 then rest.drop 1 else []) ∨
      hostPort.head? ≠ some 91 ∧
        (split = (hostPort, []) ∧ 58 ∉ hostPort ∨ hostPort = split.1 ++ 58 :: split.2 ∧ 58 ∉ split.2) := by
  by_cases hhead : hostPort.head? = some 91
  · left
    cases hf : find 93 hostPort with
    | none =>
      rw [splitHostPort_open hhead (not_mem_find hf)] at h
      cases h
    | some close =>
      obtain ⟨l, rest, rfl, hl, -⟩ := find_some hf
      cases l with
      | nil => simp at hhead
      | cons c host =>
        obtain rfl : c = 91 := by simpa using hhead
        have hhost : 93 ∉ host := fun hc => hl (List.mem_cons_of_mem _ hc)
        rw [List.cons_append, splitHostPort_literal hhost] at h
        cases h
        exact ⟨rest, rfl, hhost, rfl⟩
  · refine .inr ⟨hhead, ?_⟩
    cases hr : rfind 58 hostPort with
    | none =>
      rw [splitHostPort_bare hhead (not_mem_rfind hr)] at h
      cases h
      exact .inl ⟨rfl, not_mem_rfind hr⟩
    | some colon =>
      obtain ⟨host, port, rfl, hport, -⟩ := rfind_some hr
      rw [splitHostPort_port hhead hport] at h
      cases h
      exact .inr ⟨rfl, hport⟩

theorem splitHostPort_mem {split : Bytes × Bytes} (h : splitHostPort hostPort = some split) {c : UInt8}
    (hc : c ∈ split.1) : c ∈ hostPort := by
  rcases splitHostPort_cases h with ⟨rest, heq, -⟩ | ⟨-, ⟨heq, -⟩ | ⟨heq, -⟩⟩
  · rw [heq]
    exact List.mem_cons_of_mem _ (List.mem_append_left _ hc)
  · rw [heq] at hc
    exact hc
  · rw [heq]
    exact List.mem_append_left _ hc

end Split

theorem assemble_some {scheme hostPort target : Bytes} {url : Url} (h : assemble scheme hostPort target = some url) :
    ∃ split, splitHostPort hostPort = some split ∧ split.1 ≠ [] ∧
      (if split.2 = [] then defaultPort scheme else split.2).all (isDigit 10) = true ∧
      url = ⟨scheme, split.1, if split.2 = [] then defaultPort scheme else split.2, target⟩ := by
  unfold assemble at h
  split_ifs at h
  obtain ⟨split, hsplit, h⟩ := Option.bind_eq_some_iff.mp h
  by_cases hgood : split.1 ≠ [] ∧ (if split.2 = [] then defaultPort scheme else split.2).all (isDigit 10) = true
  · rw [if_pos hgood] at h
    cases h
    exact ⟨split, hsplit, hgood.1, hgood.2, rfl⟩
  · rw [if_neg hgood] at h
    cases h

structure Url.Origin (url : Url) : Prop where
  scheme : isKnown url.scheme
  host_ne : url.host ≠ []
  host : ∀ c ∈ url.host, delimits c = false ∧ c ≠ 64
  bracket : url.host.head? = some 91 → 93 ∉ url.host
  port_ne : url.port ≠ []
  port : ∀ c ∈ url.port, isDigit 10 c = true

theorem defaultPort_ne (scheme : Bytes) : defaultPort scheme ≠ [] := by
  unfold defaultPort
  split_ifs <;> decide

theorem parseUrl_origin {text : Bytes} {url : Url} (h : parseUrl text = some url) : url.Origin := by
  obtain ⟨scheme, authority, rest, -, hauthority, -, hknown, hassemble⟩ := parseUrl_some h
  obtain ⟨split, hsplit, hhost, hdigits, rfl⟩ := assemble_some hassemble
  have hclean : ∀ c ∈ behind 64 authority, delimits c = false ∧ c ≠ 64 := fun c hc =>
    ⟨hauthority c (mem_of_behind hc), fun h => not_mem_behind 64 authority (h ▸ hc)⟩
  have hport : (if split.2 = [] then defaultPort (toLower scheme) else split.2) ≠ [] := by
    split_ifs with hempty
    · exact defaultPort_ne _
    · exact hempty
  refine ⟨hknown, hhost, ?_, ?_, hport, fun c hc => List.all_eq_true.mp hdigits c hc⟩
  · intro c hc
    exact hclean c (splitHostPort_mem hsplit hc)
  · intro hhead
    rcases splitHostPort_cases hsplit with ⟨rest, -, hclose, -⟩ | ⟨hopen, ⟨heq, -⟩ | ⟨heq, -⟩⟩
    · exact hclose
    · rw [heq] at hhead
      exact absurd hhead hopen
    · rw [heq, List.head?_append, hhead] at hopen
      exact absurd rfl hopen

theorem parseUrl_no_hash {text : Bytes} {url : Url} (h : parseUrl text = some url) : 35 ∉ url.target := by
  obtain ⟨scheme, authority, rest, -, -, -, -, hassemble⟩ := parseUrl_some h
  obtain ⟨split, -, -, -, rfl⟩ := assemble_some hassemble
  exact not_mem_upTo 35 _

theorem parseUrl_host_mem {text : Bytes} {url : Url} (h : parseUrl text = some url) {c : UInt8} (hc : c ∈ url.host) :
    c ∈ text := by
  obtain ⟨scheme, authority, rest, htext, -, -, -, hassemble⟩ := parseUrl_some h
  obtain ⟨split, hsplit, -, -, rfl⟩ := assemble_some hassemble
  have hauthority : c ∈ authority := mem_of_behind (splitHostPort_mem hsplit hc)
  apply trim_subset
  rw [htext]
  simp only [List.mem_append]
  exact .inr (.inr (.inl hauthority))

section Print

variable {url : Url}

def Url.portText (url : Url) : Bytes := if url.port = defaultPort url.scheme then [] else 58 :: url.port

theorem hostHeader_eq (h : url.Origin) :
    url.hostHeader = (if 58 ∈ url.host then 91 :: (url.host ++ [93]) else url.host) ++ url.portText := by
  have hdefault : (url.scheme = ascii "http" ∧ url.port = ascii "80" ∨
      url.scheme = ascii "https" ∧ url.port = ascii "443") ↔ url.port = defaultPort url.scheme := by
    rcases h.scheme with hs | hs
    · rw [hs]
      simp [defaultPort, show ascii "http" ≠ ascii "https" by decide]
    · rw [hs]
      simp [defaultPort, show ascii "https" ≠ ascii "http" by decide]
  have hliteral : (find 58 url.host).isSome = true ↔ 58 ∈ url.host := by
    constructor
    · intro hsome
      by_contra hnot
      rw [find_none 58 _ hnot] at hsome
      cases hsome
    · intro hmem
      obtain ⟨l, r, heq, hl⟩ := List.eq_append_cons_of_mem hmem
      rw [heq, find_split 58 l r hl]
      rfl
  simp only [Url.hostHeader, hliteral, hdefault, Url.portText]
  split_ifs <;> simp [ascii]

theorem portText_clean (h : url.Origin) : ∀ c ∈ url.portText, delimits c = false ∧ c ≠ 64 ∧ c ≠ 93 := by
  have hdigit : ∀ c : UInt8, isDigit 10 c = true → delimits c = false ∧ c ≠ 64 ∧ c ≠ 93 := by decide +kernel
  intro c hc
  unfold Url.portText at hc
  split_ifs at hc
  · cases hc
  · rcases List.mem_cons.mp hc with rfl | hc
    · decide
    · exact hdigit c (h.port c hc)

theorem hostHeader_clean (h : url.Origin) : ∀ c ∈ url.hostHeader, delimits c = false ∧ c ≠ 64 := by
  intro c hc
  rw [hostHeader_eq h] at hc
  rcases List.mem_append.mp hc with hc | hc
  · split_ifs at hc
    · simp only [List.mem_cons, List.mem_append, List.not_mem_nil, or_false] at hc
      rcases hc with rfl | hc | rfl
      · decide
      · exact h.host c hc
      · decide
    · exact h.host c hc
  · obtain ⟨hd, ha, -⟩ := portText_clean h c hc
    exact ⟨hd, ha⟩

theorem known_class {scheme : Bytes} (h : isKnown scheme) :
    toLower scheme = scheme ∧ scheme.head? = some 104 := by
  rcases h with rfl | rfl
  · exact ⟨by decide, by decide⟩
  · exact ⟨by decide, by decide⟩

theorem trim_toString (h : url.Origin) (htarget : url.target.head? = some 47) :
    trim url.toString =
      url.scheme ++ (ascii "://" ++ (url.hostHeader ++ url.target.rdropWhile isspace)) := by
  obtain ⟨-, hhead⟩ := known_class h.scheme
  have hkeep : url.toString.dropWhile isspace = url.toString := by
    obtain ⟨cs, hcs⟩ : ∃ cs, url.toString = 104 :: cs := by
      obtain ⟨as, has⟩ := List.head?_eq_some_iff.mp hhead
      exact ⟨as ++ ascii "://" ++ url.hostHeader ++ url.target, by rw [Url.toString, has]; rfl⟩
    rw [hcs]
    exact List.dropWhile_cons_of_neg (by decide)
  have hslash : ∃ b ∈ url.target, isspace b = false := ⟨47, List.mem_of_head? htarget, by decide⟩
  rw [trim, hkeep, Url.toString, rdropWhile_append _ hslash]
  simp only [List.append_assoc]

theorem parseUrl_toString (h : url.Origin) (htarget : url.target.head? = some 47) :
    parseUrl url.toString = assemble url.scheme url.hostHeader (upTo 35 (url.target.rdropWhile isspace)) := by
  obtain ⟨hlower, -⟩ := known_class h.scheme
  have hclean := hostHeader_clean h
  have hstripped : (url.target.rdropWhile isspace).head? = some 47 := by
    obtain ⟨cs, hcs⟩ := List.head?_eq_some_iff.mp htarget
    rw [hcs]
    exact rdropWhile_head (by decide) cs
  rw [parseUrl_assemble (trim_toString h htarget), hlower, if_pos h.scheme,
    behind_self (fun hc => (hclean 64 hc).2 rfl), targetOf, if_pos hstripped]
  · exact known_no_colon (by rw [hlower]; exact h.scheme)
  · exact fun c hc => (hclean c hc).1
  · intro c hc
    rw [hstripped] at hc
    cases hc
    decide

/-- The hosts that survive: one with a colon is printed in brackets, one without a colon is not. -/
def Printable (host : Bytes) : Prop := (58 ∈ host → 93 ∉ host) ∧ (host.head? = some 91 → 58 ∈ host)

instance : DecidablePred Printable := fun _ => inferInstanceAs (Decidable (_ ∧ _))

theorem port_printed (h : url.Origin) :
    (if url.portText.drop 1 = [] then defaultPort url.scheme else url.portText.drop 1) = url.port := by
  unfold Url.portText
  by_cases hdefault : url.port = defaultPort url.scheme
  · simp [hdefault]
  · simp [hdefault, h.port_ne]

theorem portText_head (url : Url) :
    (if url.portText.head? = some 58 then url.portText.drop 1 else []) = url.portText.drop 1 := by
  unfold Url.portText
  split_ifs <;> simp_all

theorem splitHostPort_printed (h : url.Origin) (hprint : Printable url.host) :
    splitHostPort url.hostHeader = some (url.host, url.portText.drop 1) := by
  rw [hostHeader_eq h]
  by_cases hcolon : 58 ∈ url.host
  · rw [if_pos hcolon, List.cons_append, List.append_assoc, List.singleton_append,
      splitHostPort_literal (hprint.1 hcolon), portText_head url]
  · have hhead : url.host.head? ≠ some 91 := fun hopen => hcolon (hprint.2 hopen)
    obtain ⟨c, cs, hcs⟩ := List.exists_cons_of_ne_nil h.host_ne
    rw [if_neg hcolon]
    unfold Url.portText
    by_cases hdefault : url.port = defaultPort url.scheme
    · rw [if_pos hdefault, List.append_nil, splitHostPort_bare hhead hcolon]
      rfl
    · rw [if_neg hdefault, splitHostPort_port (by simpa [hcs] using hhead)]
      · rfl
      · intro hc
        have hdigit := h.port 58 hc
        revert hdigit
        decide

theorem assemble_printed (h : url.Origin) (hprint : Printable url.host) (target : Bytes) :
    assemble url.scheme url.hostHeader target = some { url with target } := by
  have hsplit := splitHostPort_printed h hprint
  have hne : url.hostHeader ≠ [] := by
    intro hnil
    rw [hostHeader_eq h, List.append_eq_nil_iff] at hnil
    split_ifs at hnil
    · cases hnil.1
    · exact h.host_ne hnil.1
  have hdigits : url.port.all (isDigit 10) = true := List.all_eq_true.mpr h.port
  simp only [assemble, if_neg hne, hsplit, Option.bind_some, port_printed h]
  rw [if_pos ⟨h.host_ne, hdigits⟩]

theorem assemble_unprintable (h : url.Origin) (hprint : ¬Printable url.host) (target target' : Bytes) :
    assemble url.scheme url.hostHeader target ≠ some { url with target := target' } := by
  intro hsome
  obtain ⟨split, hsplit, -, -, heq⟩ := assemble_some hsome
  have hhost : url.host = split.1 := congrArg Url.host heq
  rw [hostHeader_eq h] at hsplit
  by_cases hcolon : 58 ∈ url.host
  · have hclose : 93 ∈ url.host := by
      by_contra hclose
      exact hprint ⟨fun _ => hclose, fun _ => hcolon⟩
    obtain ⟨l, r, hlr, hl⟩ := List.eq_append_cons_of_mem hclose
    rw [if_pos hcolon, hlr, List.cons_append, List.append_assoc, List.append_assoc, List.cons_append,
      splitHostPort_literal hl] at hsplit
    cases hsplit
    have hlength := congrArg List.length (hlr.symm.trans hhost)
    simp at hlength
  · have hopen : url.host.head? = some 91 := by
      by_contra hopen
      exact hprint ⟨fun hc => absurd hc hcolon, fun ho => absurd ho hopen⟩
    have hclose : 93 ∉ url.host ++ url.portText := by
      intro hc
      rcases List.mem_append.mp hc with hc | hc
      · exact h.bracket hopen hc
      · exact (portText_clean h 93 hc).2.2 rfl
    rw [if_neg hcolon, splitHostPort_open (by rw [List.head?_append, hopen]; rfl) hclose] at hsplit
    cases hsplit

end Print

theorem parseUrl_round_trip (text : Bytes) (url : Url) (h : parseUrl text = some url) :
    parseUrl url.toString = some url ↔
      (58 ∈ url.host → 93 ∉ url.host) ∧ (url.host.head? = some 91 → 58 ∈ url.host) ∧
        ∀ c ∈ url.target.getLast?, isspace c = false := by
  have horigin := parseUrl_origin h
  have hhash : 35 ∉ url.target.rdropWhile isspace :=
    fun hc => parseUrl_no_hash h ((List.rdropWhile_prefix _ _).subset hc)
  rw [parseUrl_toString horigin (parseUrl_target h), upTo_self hhash]
  constructor
  · intro hsome
    have hprint : Printable url.host := by
      by_contra hprint
      exact assemble_unprintable horigin hprint _ _ hsome
    rw [assemble_printed horigin hprint] at hsome
    have htarget : url.target.rdropWhile isspace = url.target := congrArg Url.target (Option.some.inj hsome)
    refine ⟨hprint.1, hprint.2, fun c hc => ?_⟩
    have hne : url.target ≠ [] := List.ne_nil_of_mem (List.mem_of_getLast? hc)
    rw [List.getLast?_eq_getLast_of_ne_nil hne, Option.mem_def, Option.some.injEq] at hc
    rw [← hc]
    simpa using List.rdropWhile_eq_self_iff.mp htarget hne
  · rintro ⟨hcolon, hopen, hlast⟩
    have hsame : url.target.rdropWhile isspace = url.target := by
      apply List.rdropWhile_eq_self_iff.mpr
      intro hne
      simpa using hlast _ (List.getLast?_eq_getLast_of_ne_nil hne)
    rw [assemble_printed horigin ⟨hcolon, hopen⟩, hsame]

theorem parseUrl_round_trip_literal :
    parseUrl (ascii "http://[::1]:8080/a?b#c") = some ⟨ascii "http", ascii "::1", ascii "8080", ascii "/a?b"⟩ ∧
      parseUrl (Url.toString ⟨ascii "http", ascii "::1", ascii "8080", ascii "/a?b"⟩) =
        some ⟨ascii "http", ascii "::1", ascii "8080", ascii "/a?b"⟩ := by
  have hurl : parseUrl (ascii "http://[::1]:8080/a?b#c") =
      some ⟨ascii "http", ascii "::1", ascii "8080", ascii "/a?b"⟩ := by decide +kernel
  exact ⟨hurl, (parseUrl_round_trip _ _ hurl).mpr (by decide +kernel)⟩

theorem parseUrl_blank_lost :
    parseUrl (ascii "http://h/a #c") = some ⟨ascii "http", ascii "h", ascii "80", ascii "/a "⟩ ∧
      parseUrl (Url.toString ⟨ascii "http", ascii "h", ascii "80", ascii "/a "⟩) ≠
        some ⟨ascii "http", ascii "h", ascii "80", ascii "/a "⟩ := by decide +kernel

end BinderDownload.Http
