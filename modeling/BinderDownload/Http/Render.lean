import BinderDownload.Http.Reply

namespace BinderDownload.Http

open Text

inductive Eol
  | lf
  | crlf

def Eol.cr : Eol → Bytes
  | .lf => []
  | .crlf => [13]

def Eol.bytes (eol : Eol) : Bytes := eol.cr ++ [10]

structure Line where
  text : Bytes
  eol : Eol
  no_lf : 10 ∉ text
  no_cr : text.getLast? ≠ some 13
  short : (text ++ eol.cr).length ≤ kMaxLineLength

def Line.render (line : Line) : Bytes := line.text ++ line.eol.bytes

def isToken (c : UInt8) : Bool :=
  (48 ≤ c && c ≤ 57) || (65 ≤ c && c ≤ 90) || (97 ≤ c && c ≤ 122) || (ascii "!#$%&'*+-.^_`|~").contains c

def isBlank (c : UInt8) : Bool := c == 32 || c == 9

structure Field where
  name : Bytes
  value : Bytes
  before : Bytes
  after : Bytes
  eol : Eol
  name_ne : name ≠ []
  token : ∀ c ∈ name, isToken c = true
  no_lf : 10 ∉ value
  trimmed : Trimmed value
  blank : ∀ c ∈ before ++ after, isBlank c = true
  short : (name ++ 58 :: (before ++ value ++ after) ++ eol.cr).length ≤ kMaxLineLength

theorem token_class (c : UInt8) (h : isToken c = true) : isspace c = false ∧ c ≠ 58 ∧ c ≠ 10 ∧ c ≠ 13 := by
  revert c
  decide +kernel

theorem blank_class (c : UInt8) (h : isBlank c = true) :
    isspace c = true ∧ c ≠ 10 ∧ c ≠ 13 ∧ c ≠ 59 := by
  revert c
  decide +kernel

theorem getLast_append_ne {l r : Bytes} {c : UInt8} (hl : l.getLast? ≠ some c) (hr : r.getLast? ≠ some c) :
    (l ++ r).getLast? ≠ some c := by
  rw [List.getLast?_append]
  cases h : r.getLast? with
  | none => simpa using hl
  | some d =>
    rw [h] at hr
    simpa using hr

theorem getLast_ne {s : Bytes} {c : UInt8} (h : c ∉ s) : s.getLast? ≠ some c :=
  fun hl => h (List.mem_of_getLast? hl)

theorem trimmed_getLast_ne {s : Bytes} {c : UInt8} (hs : Trimmed s) (hc : isspace c = true) :
    s.getLast? ≠ some c := by
  intro h
  have := hs.2 c h
  simp [hc] at this

def Field.line (field : Field) : Line where
  text := field.name ++ 58 :: (field.before ++ field.value ++ field.after)
  eol := field.eol
  no_lf := by
    have hblank := fun c hc => (blank_class c (field.blank c hc)).2.1
    simp only [List.mem_append, List.mem_cons, not_or]
    refine ⟨fun h => (token_class _ (field.token _ h)).2.2.1 rfl, by decide, ⟨?_, field.no_lf⟩, ?_⟩
    · exact fun h => hblank 10 (List.mem_append_left _ h) rfl
    · exact fun h => hblank 10 (List.mem_append_right _ h) rfl
  no_cr := by
    have hblank := fun c hc => (blank_class c (field.blank c hc)).2.2.1
    rw [show field.name ++ 58 :: (field.before ++ field.value ++ field.after) =
      (field.name ++ [58] ++ field.before) ++ (field.value ++ field.after) by simp]
    refine getLast_append_ne (getLast_append_ne (getLast_append_ne ?_ (by decide)) ?_) (getLast_append_ne ?_ ?_)
    · exact getLast_ne (fun h => (token_class _ (field.token _ h)).2.2.2 rfl)
    · exact getLast_ne (fun h => hblank 13 (List.mem_append_left _ h) rfl)
    · exact trimmed_getLast_ne field.trimmed (by decide)
    · exact getLast_ne (fun h => hblank 13 (List.mem_append_right _ h) rfl)
  short := field.short

def Field.render (field : Field) : Bytes := field.line.render

def Field.Named (field : Field) (name : Bytes) : Prop := toLower field.name = toLower name

instance (field : Field) (name : Bytes) : Decidable (field.Named name) := inferInstanceAs (Decidable (_ = _))

def Field.item (field : Field) : Bytes × Bytes := (toLower field.name, field.value)

structure SizeLine (n : ℕ) where
  digits : Bytes
  pad : Bytes
  extension : Bytes
  eol : Eol
  spells : Spells 16 digits n
  blank : ∀ c ∈ pad, isBlank c = true
  semi : extension = [] ∨ extension.head? = some 59
  no_lf : 10 ∉ extension
  no_cr : extension.getLast? ≠ some 13
  short : (digits ++ pad ++ extension ++ eol.cr).length ≤ kMaxLineLength

theorem digit_not_cr (c : UInt8) (h : isDigit 16 c = true) : c ≠ 10 ∧ c ≠ 13 ∧ c ≠ 59 := by
  revert c
  decide +kernel

def SizeLine.line {n : ℕ} (size : SizeLine n) : Line where
  text := size.digits ++ size.pad ++ size.extension
  eol := size.eol
  no_lf := by
    simp only [List.mem_append, not_or]
    refine ⟨⟨fun h => (digit_not_cr _ (size.spells.2.1 _ h)).1 rfl, fun h => ?_⟩, size.no_lf⟩
    exact (blank_class _ (size.blank _ h)).2.1 rfl
  no_cr := by
    refine getLast_append_ne (getLast_append_ne ?_ ?_) size.no_cr
    · exact getLast_ne (fun h => (digit_not_cr _ (size.spells.2.1 _ h)).2.1 rfl)
    · exact getLast_ne (fun h => (blank_class _ (size.blank _ h)).2.2.1 rfl)
  short := size.short

structure Chunk where
  data : Bytes
  ne_nil : data ≠ []
  size : SizeLine data.length
  eol : Eol

def Chunk.render (chunk : Chunk) : Bytes := chunk.size.line.render ++ (chunk.data ++ chunk.eol.bytes)

structure Chunked where
  chunks : List Chunk
  last : SizeLine 0
  trailers : List Line
  trailers_ne : ∀ line ∈ trailers, line.text ≠ []
  eol : Eol

def Chunked.body (coding : Chunked) : Bytes := coding.chunks.flatMap Chunk.data

def Chunked.render (coding : Chunked) : Bytes :=
  coding.chunks.flatMap Chunk.render ++
    (coding.last.line.render ++ (coding.trailers.flatMap Line.render ++ coding.eol.bytes))

inductive Framing (body : Bytes)
  | length (field : Field) (named : field.Named (ascii "Content-Length"))
      (spells : Spells 10 field.value body.length)
  | chunked (field : Field) (named : field.Named (ascii "Transfer-Encoding"))
      (value : toLower field.value = ascii "chunked") (coding : Chunked) (decodes : coding.body = body)
  | close

def Framing.fields {body : Bytes} : Framing body → List Field
  | .length field _ _ => [field]
  | .chunked field _ _ _ _ => [field]
  | .close => []

def Framing.payload {body : Bytes} : Framing body → Bytes
  | .length _ _ _ => body
  | .chunked _ _ _ coding _ => coding.render
  | .close => body

def Framing.delimited {body : Bytes} : Framing body → Bool
  | .close => false
  | _ => true

structure Response (body : Bytes) where
  code : ℕ
  reason : Option Bytes
  status : Line
  before : List Field
  after : List Field
  framing : Framing body
  eol : Eol
  status_eq : status.text = ascii "HTTP/1.1 " ++ decimal code ++ (reason.map (fun r => 32 :: r)).getD []
  code_range : 100 ≤ code ∧ code < 600
  unframed : ∀ field ∈ before ++ after,
    ¬field.Named (ascii "Content-Length") ∧ ¬field.Named (ascii "Transfer-Encoding")
  count : (before ++ framing.fields ++ after).length ≤ kMaxHeaderCount
  fits : body.length < 2 ^ 63

def Response.fields {body : Bytes} (response : Response body) : List Field :=
  response.before ++ response.framing.fields ++ response.after

def Response.render {body : Bytes} (response : Response body) : Bytes :=
  response.status.render ++ (response.fields.flatMap Field.render ++
    (response.eol.bytes ++ response.framing.payload))

def Response.first {body : Bytes} (response : Response body) (name : Bytes) : Bytes :=
  ((response.fields.find? (fun field => toLower field.name == toLower name)).map Field.value).getD []

theorem blank_space : ∀ c ∈ [32] ++ ([] : Bytes), isBlank c = true := by simp [isBlank]

def Field.of (name value : Bytes) (h : name ≠ [] ∧ (∀ c ∈ name, isToken c = true) ∧ 10 ∉ value ∧ Trimmed value ∧
    (name ++ 58 :: ([32] ++ value ++ []) ++ Eol.crlf.cr).length ≤ kMaxLineLength) : Field where
  name := name
  value := value
  before := [32]
  after := []
  eol := .crlf
  name_ne := h.1
  token := h.2.1
  no_lf := h.2.2.1
  trimmed := h.2.2.2.1
  blank := blank_space
  short := h.2.2.2.2

theorem decimal_class (n : ℕ) (c : UInt8) (h : c ∈ decimal n) : isspace c = false ∧ c ≠ 10 ∧ c ≠ 13 := by
  have hd := isDigit_mono c ((decimal_spells n).2.1 c h)
  exact ⟨(digit_class c hd).1, (digit_not_cr c hd).1, (digit_not_cr c hd).2.1⟩

theorem decimal_class_trimmed (n : ℕ) : Trimmed (decimal n) :=
  ⟨fun c hc => (decimal_class n c (List.mem_of_mem_head? hc)).1,
    fun c hc => (decimal_class n c (List.mem_of_getLast? hc)).1⟩

def Framing.sized (body : Bytes) (h : (decimal body.length).length ≤ 20) : Framing body :=
  .length (Field.of (ascii "Content-Length") (decimal body.length)
    ⟨by decide, by decide +kernel, fun hlf => (decimal_class _ _ hlf).2.1 rfl, decimal_class_trimmed _, by
      simp only [List.length_append, List.length_cons, List.length_nil, Eol.cr, kMaxLineLength,
        show (ascii "Content-Length").length = 14 from rfl]
      omega⟩) rfl (decimal_spells _)

def Response.sized (code : ℕ) (fields : List Field) (body : Bytes)
    (h : 100 ≤ code ∧ code < 600 ∧ (decimal code).length ≤ 3 ∧ (decimal body.length).length ≤ 20 ∧
      body.length < 2 ^ 63 ∧ fields.length < kMaxHeaderCount ∧
      ∀ field ∈ fields, ¬field.Named (ascii "Content-Length") ∧ ¬field.Named (ascii "Transfer-Encoding")) :
    Response body where
  code := code
  reason := none
  status :=
    { text := ascii "HTTP/1.1 " ++ decimal code
      eol := .crlf
      no_lf := by
        rw [List.mem_append, not_or]
        exact ⟨by decide, fun hlf => (decimal_class _ _ hlf).2.1 rfl⟩
      no_cr := getLast_append_ne (by decide) (getLast_ne (fun hcr => (decimal_class _ _ hcr).2.2 rfl))
      short := by
        simp only [List.length_append, Eol.cr, List.length_cons, List.length_nil, kMaxLineLength,
          show (ascii "HTTP/1.1 ").length = 9 from rfl]
        omega }
  before := fields
  after := []
  framing := .sized body h.2.2.2.1
  eol := .crlf
  status_eq := by simp
  code_range := ⟨h.1, h.2.1⟩
  unframed := by simpa using h.2.2.2.2.2.2
  count := by
    have := h.2.2.2.2.2.1
    simp only [Framing.sized, Framing.fields, List.append_nil, List.length_append, List.length_singleton]
    omega
  fits := h.2.2.2.2.1

end BinderDownload.Http
