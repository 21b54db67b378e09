import BinderDownload.Http.Render

namespace BinderDownload.Http

open Text

def isGraphic (c : UInt8) : Bool := 32 < c && c != 127

def isText (c : UInt8) : Bool := isGraphic c || isBlank c

def stripBlanks (s : Bytes) : Bytes := (s.dropWhile isBlank).rdropWhile isBlank

structure RequestMessage where
  method : Bytes
  target : Bytes
  version : Bytes
  fields : List (Bytes × Bytes)
  deriving DecidableEq

def splitCrlf : Bytes → List Bytes
  | [] => [[]]
  | 13 :: 10 :: s => [] :: splitCrlf s
  | c :: s => (splitCrlf s).modifyHead (fun line => c :: line)

def isWord (word : Bytes) : Bool := word ≠ [] ∧ word.all isGraphic

def readRequestLine (line : Bytes) : Option (Bytes × Bytes × Bytes) :=
  match line.splitOn 32 with
  | [method, target, version] =>
    if isWord method ∧ isWord target ∧ isWord version then some (method, target, version) else none
  | _ => none

def readField (line : Bytes) : Option (Bytes × Bytes) :=
  match find 58 line with
  | none => none
  | some colon =>
    let name := line.take colon
    let value := stripBlanks (line.drop (colon + 1))
    if name ≠ [] ∧ name.all isToken ∧ value.all isText then some (name, value) else none

def readFields : List Bytes → Option (List (Bytes × Bytes) × List Bytes)
  | [] => none
  | [] :: rest => some ([], rest)
  | line :: rest => do
    let field ← readField line
    let (fields, rest) ← readFields rest
    return (field :: fields, rest)

def readRequest (bytes : Bytes) : Option (RequestMessage × List Bytes) :=
  match splitCrlf bytes with
  | [] => none
  | line :: rest => do
    let (method, target, version) ← readRequestLine line
    let (fields, rest) ← readFields rest
    return (⟨method, target, version, fields⟩, rest)

def intended (url : Url) (request : Request) : RequestMessage where
  method := ascii "GET"
  target := url.target
  version := ascii "HTTP/1.1"
  fields := [(ascii "Host", url.hostHeader), (ascii "User-Agent", kUserAgent), (ascii "Accept", ascii "*/*"),
      (ascii "Accept-Encoding", ascii "identity")] ++
    (if 0 < request.resumeFrom then [(ascii "Range", ascii "bytes=" ++ toText request.resumeFrom ++ ascii "-")]
      else []) ++
    [(ascii "Connection", ascii "close")]

def Plain (value : Bytes) : Prop :=
  (∀ c ∈ value, isText c = true) ∧ (∀ c ∈ value.head?, isBlank c = false) ∧ (∀ c ∈ value.getLast?, isBlank c = false)

instance (value : Bytes) : Decidable (Plain value) := inferInstanceAs (Decidable (_ ∧ _))

theorem text_class (c : UInt8) (h : isText c = true) : c ≠ 13 ∧ c ≠ 10 := by
  constructor
  · rintro rfl
    exact absurd h (by decide)
  · rintro rfl
    exact absurd h (by decide)

theorem graphic_class (c : UInt8) (h : isGraphic c = true) : isText c = true ∧ c ≠ 32 := by
  refine ⟨by rw [isText, h, Bool.true_or], ?_⟩
  rintro rfl
  exact absurd h (by decide)

theorem token_text (c : UInt8) (h : isToken c = true) : isText c = true := by
  revert c
  decide +kernel

theorem digit_text (c : UInt8) (h : isDigit 10 c = true) : isGraphic c = true := by
  revert c
  decide +kernel

theorem splitCrlf_line {line : Bytes} (rest : Bytes) (h : 13 ∉ line) :
    splitCrlf (line ++ (crlf ++ rest)) = line :: splitCrlf rest := by
  induction line with
  | nil => rfl
  | cons c line ih =>
    rw [List.mem_cons, not_or] at h
    have hc : c ≠ 13 := Ne.symm h.1
    rw [List.cons_append, splitCrlf, ih h.2]
    · rfl
    · rintro s rfl
      exact absurd rfl hc

theorem stripBlanks_pad {value : Bytes} (h : Plain value) : stripBlanks (32 :: value) = value := by
  have hpad := strip_pad (p := isBlank) [32] value [] (by simp [isBlank]) (by simp) h.2.1 h.2.2
  rw [List.append_nil] at hpad
  exact hpad

theorem readField_line {name value : Bytes} (hname : name ≠ [] ∧ ∀ c ∈ name, isToken c = true) (hvalue : Plain value) :
    readField (name ++ 58 :: 32 :: value) = some (name, value) := by
  have hcolon : 58 ∉ name := fun h => (token_class _ (hname.2 _ h)).2.1 rfl
  have hdrop : (name ++ 58 :: 32 :: value).drop (name.length + 1) = 32 :: value := by
    rw [← List.drop_drop, List.drop_left' rfl]
    rfl
  rw [readField, find_split 58 name _ hcolon]
  simp only [List.take_left' rfl, hdrop, stripBlanks_pad hvalue]
  rw [if_pos ⟨hname.1, List.all_eq_true.mpr hname.2, List.all_eq_true.mpr hvalue.1⟩]

theorem readField_plain {line : Bytes} {field : Bytes × Bytes} (h : readField line = some field) : Plain field.2 := by
  rw [readField] at h
  cases hf : find 58 line with
  | none => simp [hf] at h
  | some colon =>
    simp only [hf] at h
    split_ifs at h with hok
    rw [← Option.some.inj h]
    exact ⟨List.all_eq_true.mp hok.2.2, strip_ends _⟩

theorem readFields_plain {lines rest : List Bytes} {fields : List (Bytes × Bytes)}
    (h : readFields lines = some (fields, rest)) : ∀ field ∈ fields, Plain field.2 := by
  induction lines generalizing fields rest with
  | nil => simp [readFields] at h
  | cons line lines ih =>
    cases line with
    | nil =>
      simp only [readFields, Option.some.injEq, Prod.mk.injEq] at h
      simp [← h.1]
    | cons c line =>
      simp only [readFields, Option.bind_eq_bind, Option.bind_eq_some_iff, Option.pure_def, Option.some.injEq] at h
      obtain ⟨field, hfield, ⟨fields', rest'⟩, hrest, heq⟩ := h
      rw [Prod.mk.injEq] at heq
      rw [← heq.1]
      intro f hf
      rcases List.mem_cons.mp hf with rfl | hf
      · exact readField_plain hfield
      · exact ih hrest f hf

theorem readFields_line {name value : Bytes} {lines rest : List Bytes} {fields : List (Bytes × Bytes)}
    (hname : name ≠ [] ∧ ∀ c ∈ name, isToken c = true) (hvalue : Plain value)
    (h : readFields lines = some (fields, rest)) :
    readFields ((name ++ 58 :: 32 :: value) :: lines) = some ((name, value) :: fields, rest) := by
  obtain ⟨c, cs, rfl⟩ := List.exists_cons_of_ne_nil hname.1
  rw [List.cons_append, readFields]
  · rw [← List.cons_append, readField_line hname hvalue, h]
    rfl
  · simp

theorem readRequestLine_words {method target version : Bytes}
    (h : ∀ word ∈ [method, target, version], isWord word = true) :
    readRequestLine (method ++ 32 :: (target ++ 32 :: version)) = some (method, target, version) := by
  have hblank : ∀ word ∈ [method, target, version], 32 ∉ word := by
    intro word hword hmem
    have hw := h word hword
    simp only [isWord, decide_eq_true_eq, List.all_eq_true] at hw
    exact (graphic_class 32 (hw.2 32 hmem)).2 rfl
  have hsplit := List.splitOn_intercalate 32 hblank (by simp)
  have hline : method ++ 32 :: (target ++ 32 :: version) = [32].intercalate [method, target, version] := by
    simp [List.intercalate]
  rw [readRequestLine, hline, hsplit]
  exact if_pos ⟨h _ (by simp), h _ (by simp), h _ (by simp)⟩

theorem readRequestLine_target {line method target version : Bytes}
    (h : readRequestLine line = some (method, target, version)) : ∀ c ∈ target, isGraphic c = true := by
  rw [readRequestLine] at h
  split at h
  · split_ifs at h with hwords
    simp only [Option.some.injEq, Prod.mk.injEq] at h
    have hw := hwords.2.1
    rw [h.2.1] at hw
    simp only [isWord, decide_eq_true_eq, List.all_eq_true] at hw
    exact hw.2
  · simp at h

theorem cutFragment_head {target : Bytes} (h : target.head? = some 47) :
    (match find 35 target with
      | none => target
      | some fragment => target.take fragment).head? = some 47 := by
  cases target with
  | nil => simp at h
  | cons c target =>
    obtain rfl : c = 47 := by simpa using h
    cases hf : find 35 (47 :: target) with
    | none => rfl
    | some fragment =>
      obtain ⟨l, r, heq, -, rfl⟩ := find_some hf
      cases l with
      | nil => simp at heq
      | cons d l => simp

theorem leadSlash_head (target : Bytes) :
    (if target.head? = some 47 then target else ascii "/" ++ target).head? = some 47 := by
  split_ifs with hslash
  · exact hslash
  · rfl

theorem parseUrl_target {text : Bytes} {url : Url} (h : parseUrl text = some url) : url.target.head? = some 47 := by
  simp only [parseUrl, Option.bind_eq_bind, Option.bind_eq_some_iff, Option.pure_def, Option.some.injEq] at h
  obtain ⟨schemeEnd, -, -, -, -, -, hostPort, -, -, -, -, -, rfl⟩ := h
  apply cutFragment_head
  exact leadSlash_head _

theorem plain_digits {ds : Bytes} (h : ∀ c ∈ ds, isDigit 10 c = true) : ∀ c ∈ ds, isText c = true :=
  fun c hc => (graphic_class c (digit_text c (h c hc))).1

theorem rangeValue_plain {n : ℤ} (hn : 0 < n) : Plain (ascii "bytes=" ++ toText n ++ ascii "-") := by
  obtain ⟨m, rfl⟩ := Int.eq_ofNat_of_zero_le hn.le
  refine ⟨?_, ?_, ?_⟩
  · intro c hc
    simp only [List.mem_append] at hc
    rcases hc with (hc | hc) | hc
    · revert c
      decide +kernel
    · exact plain_digits (decimal_spells m).2.1 c hc
    · revert c
      decide +kernel
  · intro c hc
    have hfirst : ascii "bytes=" = 98 :: ascii "ytes=" := by decide
    rw [hfirst] at hc
    obtain rfl : 98 = c := Option.some.inj hc
    decide
  · intro c hc
    have hlast : ascii "-" = [45] := by decide
    rw [hlast, List.getLast?_concat] at hc
    obtain rfl : 45 = c := Option.some.inj hc
    decide

theorem Plain.no_cr {name value : Bytes} (hname : ∀ c ∈ name, isToken c = true) (hvalue : Plain value) :
    13 ∉ name ++ 58 :: 32 :: value := by
  intro h
  simp only [List.mem_append, List.mem_cons] at h
  rcases h with h | h | h | h
  · exact (text_class 13 (token_text 13 (hname 13 h))).1 rfl
  · exact absurd h (by decide)
  · exact absurd h (by decide)
  · exact (text_class 13 (hvalue.1 13 h)).1 rfl

theorem readFields_field {name value tail : Bytes} {rest : List Bytes} {fields : List (Bytes × Bytes)}
    (hname : name ≠ [] ∧ ∀ c ∈ name, isToken c = true) (hvalue : Plain value)
    (h : readFields (splitCrlf tail) = some (fields, rest)) :
    readFields (splitCrlf (name ++ (ascii ": " ++ (value ++ (crlf ++ tail))))) =
      some ((name, value) :: fields, rest) := by
  have hline : name ++ (ascii ": " ++ (value ++ (crlf ++ tail))) = (name ++ 58 :: 32 :: value) ++ (crlf ++ tail) := by
    rw [List.append_assoc]
    rfl
  rw [hline, splitCrlf_line tail (hvalue.no_cr hname.2)]
  exact readFields_line hname hvalue h

def Url.Clean (url : Url) : Prop := (∀ c ∈ url.target, isGraphic c = true) ∧ Plain url.hostHeader

instance (url : Url) : Decidable url.Clean := inferInstanceAs (Decidable (_ ∧ _))

def rangeLine (request : Request) : Bytes :=
  if 0 < request.resumeFrom then ascii "Range: bytes=" ++ toText request.resumeFrom ++ ascii "-" ++ crlf else []

theorem readFields_range (request : Request) :
    readFields (splitCrlf (rangeLine request ++ (ascii "Connection: close" ++ (crlf ++ crlf)))) =
      some ((if 0 < request.resumeFrom then
        [(ascii "Range", ascii "bytes=" ++ toText request.resumeFrom ++ ascii "-")] else []) ++
        [(ascii "Connection", ascii "close")], [[]]) := by
  have hclose : readFields (splitCrlf (ascii "Connection: close" ++ (crlf ++ crlf))) =
      some ([(ascii "Connection", ascii "close")], [[]]) := by decide
  rw [rangeLine]
  split_ifs with hn
  · have hname : ascii "Range" ≠ [] ∧ ∀ c ∈ ascii "Range", isToken c = true := ⟨by decide, by decide +kernel⟩
    have hrange := readFields_field hname (rangeValue_plain hn) hclose
    simp only [List.append_assoc] at hrange ⊢
    exact hrange
  · exact hclose

theorem readFields_head {url : Url} (request : Request) (h : Plain url.hostHeader) :
    readFields (splitCrlf (
      ascii "Host: " ++ (url.hostHeader ++ (crlf ++
      (ascii "User-Agent: " ++ (kUserAgent ++ (crlf ++
      (ascii "Accept: */*" ++ (crlf ++
      (ascii "Accept-Encoding: identity" ++ (crlf ++
      (rangeLine request ++ (ascii "Connection: close" ++ (crlf ++ crlf)))))))))))))) =
        some ((intended url request).fields, [[]]) := by
  have hhost : ascii "Host" ≠ [] ∧ ∀ c ∈ ascii "Host", isToken c = true := ⟨by decide, by decide +kernel⟩
  have hagent : ascii "User-Agent" ≠ [] ∧ ∀ c ∈ ascii "User-Agent", isToken c = true := ⟨by decide, by decide +kernel⟩
  have haccept : ascii "Accept" ≠ [] ∧ ∀ c ∈ ascii "Accept", isToken c = true := ⟨by decide, by decide +kernel⟩
  have hcoding : ascii "Accept-Encoding" ≠ [] ∧ ∀ c ∈ ascii "Accept-Encoding", isToken c = true :=
    ⟨by decide, by decide +kernel⟩
  have hagentValue : Plain kUserAgent := by decide +kernel
  have hacceptValue : Plain (ascii "*/*") := by decide +kernel
  have hcodingValue : Plain (ascii "identity") := by decide +kernel
  have hhostText : ascii "Host: " = ascii "Host" ++ ascii ": " := by decide
  have hagentText : ascii "User-Agent: " = ascii "User-Agent" ++ ascii ": " := by decide
  have hacceptText : ascii "Accept: */*" = ascii "Accept" ++ ascii ": " ++ ascii "*/*" := by decide
  have hcodingText : ascii "Accept-Encoding: identity" = ascii "Accept-Encoding" ++ ascii ": " ++ ascii "identity" := by
    decide
  have hread := readFields_field hhost h (readFields_field hagent hagentValue (readFields_field haccept hacceptValue
    (readFields_field hcoding hcodingValue (readFields_range request))))
  rw [hhostText, hagentText, hacceptText, hcodingText]
  simp only [List.append_assoc] at hread ⊢
  exact hread

theorem requestHead_reads {text : Bytes} {url : Url} (hurl : parseUrl text = some url) (request : Request)
    (h : url.Clean) : readRequest (requestHead url request) = some (intended url request, [[]]) := by
  obtain ⟨htarget, hhost⟩ := h
  have hne : url.target ≠ [] := by
    intro hnil
    have hslash := parseUrl_target hurl
    rw [hnil] at hslash
    simp at hslash
  have hword : isWord url.target = true := by
    simp only [isWord, decide_eq_true_eq, List.all_eq_true]
    exact ⟨hne, htarget⟩
  have hwords : ∀ word ∈ [ascii "GET", url.target, ascii "HTTP/1.1"], isWord word = true := by
    intro word hmem
    simp only [List.mem_cons, List.not_mem_nil, or_false] at hmem
    rcases hmem with rfl | rfl | rfl
    · decide
    · exact hword
    · decide
  have hcr : 13 ∉ ascii "GET" ++ 32 :: (url.target ++ 32 :: ascii "HTTP/1.1") := by
    have hurl : 13 ∉ url.target := fun hmem => (text_class 13 (graphic_class 13 (htarget 13 hmem)).1).1 rfl
    simp only [List.mem_append, List.mem_cons, not_or]
    exact ⟨by decide, by decide, hurl, by decide, by decide⟩
  have hhead : requestHead url request = (ascii "GET" ++ 32 :: (url.target ++ 32 :: ascii "HTTP/1.1")) ++ (crlf ++
      (ascii "Host: " ++ (url.hostHeader ++ (crlf ++
      (ascii "User-Agent: " ++ (kUserAgent ++ (crlf ++
      (ascii "Accept: */*" ++ (crlf ++
      (ascii "Accept-Encoding: identity" ++ (crlf ++
      (rangeLine request ++ (ascii "Connection: close" ++ (crlf ++ crlf))))))))))))))  := by
    simp only [requestHead, rangeLine, List.append_assoc, List.cons_append]
    rfl
  rw [readRequest, hhead, splitCrlf_line _ hcr]
  simp only [readRequestLine_words hwords, readFields_head request hhost]
  rfl

theorem requestHead_grammar (text : Bytes) (url : Url) (request : Request) (hurl : parseUrl text = some url) :
    readRequest (requestHead url request) = some (intended url request, [[]]) ↔ url.Clean := by
  refine ⟨fun h => ?_, requestHead_reads hurl request⟩
  rw [readRequest] at h
  split at h
  · simp at h
  · simp only [Option.bind_eq_bind, Option.bind_eq_some_iff, Option.pure_def, Option.some.injEq] at h
    obtain ⟨⟨method, target, version⟩, hline, ⟨fields, rest⟩, hfields, heq⟩ := h
    rw [Prod.mk.injEq] at heq
    obtain ⟨heq, -⟩ := heq
    have htarget : target = url.target := congrArg RequestMessage.target heq
    have hhost : (ascii "Host", url.hostHeader) ∈ fields := by
      rw [show fields = (intended url request).fields from congrArg RequestMessage.fields heq]
      simp [intended]
    exact ⟨htarget ▸ readRequestLine_target hline, readFields_plain hfields _ hhost⟩

theorem requestHead_grammar_query :
    parseUrl (ascii "http://h:8080/a?b=c#d") = some ⟨ascii "http", ascii "h", ascii "8080", ascii "/a?b=c"⟩ ∧
      readRequest (requestHead ⟨ascii "http", ascii "h", ascii "8080", ascii "/a?b=c"⟩ { url := [], resumeFrom := 7 }) =
        some (intended ⟨ascii "http", ascii "h", ascii "8080", ascii "/a?b=c"⟩ { url := [], resumeFrom := 7 },
          [[]]) := by
  have hurl : parseUrl (ascii "http://h:8080/a?b=c#d") =
      some ⟨ascii "http", ascii "h", ascii "8080", ascii "/a?b=c"⟩ := by
    decide
  exact ⟨hurl, (requestHead_grammar _ _ { url := [], resumeFrom := 7 } hurl).mpr (by decide +kernel)⟩

theorem requestHead_injected :
    let url : Url := ⟨ascii "http", ascii "h", ascii "80", ascii "/ HTTP/1.1\r\nHost: evil\r\n\r\nGET /b"⟩
    parseUrl (ascii "http://h/ HTTP/1.1\r\nHost: evil\r\n\r\nGET /b") = some url ∧
      (readRequest (requestHead url { url := [] })).map (fun read => read.1) =
        some ⟨ascii "GET", ascii "/", ascii "HTTP/1.1", [(ascii "Host", ascii "evil")]⟩ ∧
      readRequest (requestHead url { url := [] }) ≠ some (intended url { url := [] }, [[]]) := by
  decide +kernel

end BinderDownload.Http
