import BinderDownload.Http.UrlParts

namespace BinderDownload.Http

open Text

structure UrlText where
  before : Bytes
  scheme : Bytes
  userinfo : Option Bytes
  bracketed : Bool
  host : Bytes
  port : Option Bytes
  rest : Bytes
  after : Bytes
  before_blank : ∀ c ∈ before, isspace c = true
  after_blank : ∀ c ∈ after, isspace c = true
  scheme_clean : ∀ c ∈ scheme, isspace c = false ∧ c ≠ 58
  userinfo_clean : ∀ u ∈ userinfo, ∀ c ∈ u, isspace c = false ∧ delimits c = false
  host_clean : ∀ c ∈ host, isspace c = false ∧ delimits c = false ∧ c ≠ 64 ∧ c ≠ 93
  name_clean : bracketed = false → ∀ c ∈ host, c ≠ 58 ∧ c ≠ 91
  port_clean : ∀ p ∈ port, ∀ c ∈ p, delimits c = false ∧ c ≠ 64
  port_end : rest = [] → ∀ p ∈ port, ∀ c ∈ p.getLast?, isspace c = false
  rest_head : ∀ c ∈ rest.head?, delimits c = true
  rest_clean : ∀ c ∈ rest, isspace c = false

namespace UrlText

variable (t : UrlText)

def portText : Bytes := (t.port.map (fun p => 58 :: p)).getD []

def hostPort : Bytes := (if t.bracketed then 91 :: (t.host ++ [93]) else t.host) ++ t.portText

def authority : Bytes := (t.userinfo.map (fun u => u ++ [64])).getD [] ++ t.hostPort

def core : Bytes := t.scheme ++ (ascii "://" ++ (t.authority ++ t.rest))

def text : Bytes := t.before ++ t.core ++ t.after

def url : Option Url :=
  if isKnown (toLower t.scheme) ∧ t.host ≠ [] ∧ (t.port.getD []).all (isDigit 10) then
    some
      { scheme := toLower t.scheme
        host := t.host
        port := if t.port.getD [] = [] then defaultPort (toLower t.scheme) else t.port.getD []
        target := targetOf t.rest }
  else none

/-- Behind a name, a port with a colon and a number behind it. -/
def Misread : Prop :=
  isKnown (toLower t.scheme) ∧ t.bracketed = false ∧
    ∃ p ∈ t.port, 58 ∈ p ∧ (behind 58 p).all (isDigit 10) = true

theorem portText_clean : ∀ c ∈ t.portText, delimits c = false ∧ c ≠ 64 := by
  intro c hc
  unfold portText at hc
  cases hp : t.port with
  | none =>
    rw [hp] at hc
    cases hc
  | some p =>
    rw [hp] at hc
    rcases List.mem_cons.mp hc with rfl | hc
    · decide
    · exact t.port_clean p hp c hc

theorem hostPort_clean : ∀ c ∈ t.hostPort, delimits c = false ∧ c ≠ 64 := by
  intro c hc
  rcases List.mem_append.mp hc with hc | hc
  · split_ifs at hc
    · simp only [List.mem_cons, List.mem_append, List.not_mem_nil, or_false] at hc
      rcases hc with rfl | hc | rfl
      · decide
      · exact ⟨(t.host_clean c hc).2.1, (t.host_clean c hc).2.2.1⟩
      · decide
    · exact ⟨(t.host_clean c hc).2.1, (t.host_clean c hc).2.2.1⟩
  · exact t.portText_clean c hc

theorem authority_clean : ∀ c ∈ t.authority, delimits c = false := by
  intro c hc
  rcases List.mem_append.mp hc with hc | hc
  · cases hu : t.userinfo with
    | none =>
      rw [hu] at hc
      cases hc
    | some u =>
      rw [hu] at hc
      rcases List.mem_append.mp hc with hc | hc
      · exact (t.userinfo_clean u hu c hc).2
      · rw [List.mem_singleton.mp hc]
        decide
  · exact (t.hostPort_clean c hc).1

theorem behind_authority : behind 64 t.authority = t.hostPort := by
  have hno : 64 ∉ t.hostPort := fun hc => (t.hostPort_clean 64 hc).2 rfl
  unfold authority
  cases t.userinfo with
  | none => exact behind_self hno
  | some u =>
    rw [Option.map_some, Option.getD_some, List.append_assoc]
    exact behind_split u hno

theorem core_solid (hport : ∀ p ∈ t.port, ∀ c ∈ p, isspace c = false) : ∀ c ∈ t.core, isspace c = false := by
  have hname : ∀ c ∈ ascii "://", isspace c = false := by decide +kernel
  have hhost : ∀ c ∈ (if t.bracketed then 91 :: (t.host ++ [93]) else t.host), isspace c = false := by
    intro c hc
    split_ifs at hc
    · simp only [List.mem_cons, List.mem_append, List.not_mem_nil, or_false] at hc
      rcases hc with rfl | hc | rfl
      · decide
      · exact (t.host_clean c hc).1
      · decide
    · exact (t.host_clean c hc).1
  have huser : ∀ c ∈ (t.userinfo.map (fun u => u ++ [64])).getD [], isspace c = false := by
    intro c hc
    cases hu : t.userinfo with
    | none =>
      rw [hu] at hc
      cases hc
    | some u =>
      rw [hu] at hc
      rcases List.mem_append.mp hc with hc | hc
      · exact (t.userinfo_clean u hu c hc).1
      · rw [List.mem_singleton.mp hc]
        decide
  have htail : ∀ c ∈ t.portText, isspace c = false := by
    intro c hc
    unfold portText at hc
    cases hp : t.port with
    | none =>
      rw [hp] at hc
      cases hc
    | some p =>
      rw [hp] at hc
      rcases List.mem_cons.mp hc with rfl | hc
      · decide
      · exact hport p hp c hc
  intro c hc
  simp only [core, authority, hostPort, List.mem_append] at hc
  rcases hc with hc | hc | (hc | hc | hc) | hc
  · exact (t.scheme_clean c hc).1
  · exact hname c hc
  · exact huser c hc
  · exact hhost c hc
  · exact htail c hc
  · exact t.rest_clean c hc

theorem core_trimmed : Trimmed t.core := by
  constructor
  · intro c hc
    unfold core at hc
    cases hs : t.scheme with
    | nil =>
      rw [hs] at hc
      cases hc
      decide
    | cons d ds =>
      rw [hs] at hc
      cases hc
      exact (t.scheme_clean c (by rw [hs]; exact List.mem_cons_self)).1
  · intro c hc
    by_cases hrest : t.rest = []
    · by_cases hport : ∃ p ∈ t.port, p ≠ []
      · obtain ⟨p, hp, hne⟩ := hport
        have hcore : t.core = t.scheme ++ ascii "://" ++ (t.userinfo.map (fun u => u ++ [64])).getD [] ++
            (if t.bracketed then 91 :: (t.host ++ [93]) else t.host) ++ [58] ++ p := by
          rw [core, authority, hostPort, portText, Option.mem_def.mp hp, hrest]
          simp only [Option.map_some, Option.getD_some, List.append_nil, List.append_assoc, List.singleton_append]
        rw [hcore, List.getLast?_append_of_ne_nil _ hne] at hc
        exact t.port_end hrest p hp c hc
      · refine t.core_solid (fun p hp d hd => ?_) c (List.mem_of_getLast? hc)
        exact absurd ⟨p, hp, List.ne_nil_of_mem hd⟩ hport
    · rw [core, ← List.append_assoc, ← List.append_assoc, List.getLast?_append_of_ne_nil _ hrest] at hc
      exact t.rest_clean c (List.mem_of_getLast? hc)

theorem parseUrl_text :
    parseUrl t.text =
      if isKnown (toLower t.scheme) then assemble (toLower t.scheme) t.hostPort (targetOf t.rest) else none := by
  have htrim : trim t.text = t.core := trim_pad t.before t.core t.after t.before_blank t.after_blank t.core_trimmed
  rw [parseUrl_assemble htrim (fun hc => (t.scheme_clean 58 hc).2 rfl) t.authority_clean t.rest_head,
    t.behind_authority]

theorem assemble_split {scheme hostPort host port target : Bytes}
    (hsplit : splitHostPort hostPort = some (host, port)) :
    assemble scheme hostPort target =
      if host ≠ [] ∧ port.all (isDigit 10) then
        some ⟨scheme, host, if port = [] then defaultPort scheme else port, target⟩
      else none := by
  have hdefault : (defaultPort scheme).all (isDigit 10) = true := by
    unfold defaultPort
    split_ifs <;> decide
  have hdigits : (if port = [] then defaultPort scheme else port).all (isDigit 10) = port.all (isDigit 10) := by
    split_ifs with hempty
    · rw [hempty, hdefault]
      rfl
    · rfl
  unfold assemble
  by_cases hne : hostPort = []
  · rw [hne, splitHostPort_bare (by simp) (by simp)] at hsplit
    cases hsplit
    simp [hne]
  · simp only [if_neg hne, hsplit, Option.bind_some, hdigits]

theorem url_split (hsplit : splitHostPort t.hostPort = some (t.host, t.port.getD [])) :
    parseUrl t.text = t.url := by
  rw [t.parseUrl_text, url]
  by_cases hknown : isKnown (toLower t.scheme)
  · rw [if_pos hknown, assemble_split hsplit]
    simp only [hknown, true_and]
  · simp only [hknown, false_and, if_false]

theorem splitHostPort_bracketed (h : t.bracketed = true) :
    splitHostPort t.hostPort = some (t.host, t.port.getD []) := by
  have hclose : 93 ∉ t.host := fun hc => (t.host_clean 93 hc).2.2.2 rfl
  rw [hostPort, if_pos h, List.cons_append, List.append_assoc, List.singleton_append, splitHostPort_literal hclose,
    portText]
  cases t.port with
  | none => rfl
  | some p => rfl

theorem name_head (h : t.bracketed = false) (tail : Bytes) (htail : tail.head? ≠ some 91) :
    (t.host ++ tail).head? ≠ some 91 := by
  intro hhead
  rw [List.head?_append] at hhead
  cases hhost : t.host with
  | nil =>
    rw [hhost] at hhead
    exact htail hhead
  | cons c cs =>
    rw [hhost] at hhead
    cases hhead
    exact (t.name_clean h 91 (by rw [hhost]; exact List.mem_cons_self)).2 rfl

theorem splitHostPort_name (h : t.bracketed = false) (hport : ∀ p ∈ t.port, 58 ∉ p) :
    splitHostPort t.hostPort = some (t.host, t.port.getD []) := by
  have hcolon : 58 ∉ t.host := fun hc => (t.name_clean h 58 hc).1 rfl
  rw [hostPort, h, if_neg Bool.false_ne_true, portText]
  cases hp : t.port with
  | none =>
    have hhead := t.name_head h [] (by simp)
    rw [List.append_nil] at hhead
    rw [Option.map_none, Option.getD_none, List.append_nil, splitHostPort_bare hhead hcolon]
  | some p => exact splitHostPort_port (t.name_head h (58 :: p) (by simp)) (hport p hp)

theorem parseUrl_misplit (hknown : isKnown (toLower t.scheme)) (h : t.bracketed = false) {p : Bytes} (hp : p ∈ t.port)
    (hcolon : 58 ∈ p) : (parseUrl t.text).isSome = (behind 58 p).all (isDigit 10) := by
  obtain ⟨l, r, rfl, hr⟩ := split_last hcolon
  have hsplit : splitHostPort t.hostPort = some (t.host ++ 58 :: l, r) := by
    have hhead := t.name_head h (58 :: (l ++ 58 :: r)) (by simp)
    have heq : t.host ++ 58 :: (l ++ 58 :: r) = (t.host ++ 58 :: l) ++ 58 :: r := by simp
    rw [heq] at hhead
    rw [hostPort, h, if_neg Bool.false_ne_true, portText, Option.mem_def.mp hp, Option.map_some, Option.getD_some, heq]
    exact splitHostPort_port hhead hr
  rw [t.parseUrl_text, if_pos hknown, assemble_split hsplit, behind_split l hr]
  by_cases hdigits : r.all (isDigit 10) = true
  · simp [hdigits]
  · simp [hdigits]

theorem url_colon {p : Bytes} (hp : p ∈ t.port) (hcolon : 58 ∈ p) : t.url = none := by
  have hdigits : ¬(t.port.getD []).all (isDigit 10) = true := by
    rw [Option.mem_def.mp hp, Option.getD_some]
    intro hall
    have hdigit := List.all_eq_true.mp hall 58 hcolon
    revert hdigit
    decide
  rw [url, if_neg (fun h => hdigits h.2.2)]

end UrlText

theorem parseUrl_components (t : UrlText) : parseUrl t.text = t.url ↔ ¬t.Misread := by
  by_cases hknown : isKnown (toLower t.scheme)
  · cases hb : t.bracketed with
    | true =>
      refine ⟨fun _ hm => ?_, fun _ => t.url_split (t.splitHostPort_bracketed hb)⟩
      rw [hm.2.1] at hb
      cases hb
    | false =>
      by_cases hport : ∃ p ∈ t.port, 58 ∈ p
      · obtain ⟨p, hp, hcolon⟩ := hport
        have hsome := t.parseUrl_misplit hknown hb hp hcolon
        rw [t.url_colon hp hcolon, ← Option.not_isSome_iff_eq_none, hsome]
        apply not_congr
        constructor
        · intro hdigits
          exact ⟨hknown, hb, p, hp, hcolon, hdigits⟩
        · rintro ⟨-, -, q, hq, -, hdigits⟩
          rw [Option.mem_unique hq hp] at hdigits
          exact hdigits
      · have hsplit := t.splitHostPort_name hb (fun p hp hcolon => hport ⟨p, hp, hcolon⟩)
        refine ⟨fun _ hm => ?_, fun _ => t.url_split hsplit⟩
        obtain ⟨-, -, p, hp, hcolon, -⟩ := hm
        exact hport ⟨p, hp, hcolon⟩
  · refine ⟨fun _ hm => hknown hm.1, fun _ => ?_⟩
    rw [t.parseUrl_text, if_neg hknown, UrlText.url, if_neg (fun h => hknown h.1)]

theorem parseUrl_colon_port :
    ∃ t : UrlText, t.text = ascii "http://h:8:0/" ∧ t.host = ascii "h" ∧ t.port = some (ascii "8:0") ∧ t.url = none ∧
      parseUrl t.text = some ⟨ascii "http", ascii "h:8", ascii "0", ascii "/"⟩ :=
  ⟨{ before := []
     scheme := ascii "http"
     userinfo := none
     bracketed := false
     host := ascii "h"
     port := some (ascii "8:0")
     rest := ascii "/"
     after := []
     before_blank := by simp
     after_blank := by simp
     scheme_clean := by decide +kernel
     userinfo_clean := by decide
     host_clean := by decide +kernel
     name_clean := by decide +kernel
     port_clean := by decide +kernel
     port_end := by decide +kernel
     rest_head := by decide +kernel
     rest_clean := by decide +kernel },
    by decide +kernel, rfl, rfl, by decide +kernel, by decide +kernel⟩

end BinderDownload.Http
