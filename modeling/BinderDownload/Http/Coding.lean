import BinderDownload.Http.Interim
import BinderDownload.Lib.Cut

/-!
The transfer codings of a response. The client looks at the first `Transfer-Encoding` line only, and in it for
the word `chunked`; a recipient that takes the field as a list looks at the last coding of all lines.
-/

namespace BinderDownload.Http

open Text

def transferEncoding : Bytes := ascii "Transfer-Encoding"

def Headers.lines (headers : Headers) (name : Bytes) : List Bytes :=
  (headers.mItems.filter (fun item => item.1 == toLower name)).map Prod.snd

def listItems (lines : List Bytes) : List Bytes := (([44] : Bytes).intercalate lines).splitOn 44

def codingOf (item : Bytes) : Bytes := toLower (trim (upTo 59 item))

def codings (lines : List Bytes) : List Bytes := ((listItems lines).map codingOf).filter (fun coding => coding ≠ [])

def Worded (text : Bytes) : Prop := ascii "chunked" <:+: toLower text

instance (text : Bytes) : Decidable (Worded text) := inferInstanceAs (Decidable (_ <:+: _))

/-- The word stands on the first line or nowhere, and where it stands it is the last coding of all. -/
def Orderly (lines : List Bytes) : Prop :=
  (∀ line ∈ lines.tail, ¬Worded line) ∧
    ∀ before item after, listItems lines = before ++ item :: after → Worded item →
      codingOf item = ascii "chunked" ∧ ∀ other ∈ after, codingOf other = []

theorem Headers.get_lines (headers : Headers) (name : Bytes) :
    headers.get name = ((headers.lines name).head?).getD [] := by
  rw [get, lines, List.head?_map, List.head?_filter]

theorem Headers.contains_worded (headers : Headers) :
    headers.contains transferEncoding (ascii "chunked") = true ↔
      ∃ line ∈ (headers.lines transferEncoding).head?, Worded line := by
  have hword : toLower (ascii "chunked") = ascii "chunked" := by decide +kernel
  rw [contains, hword, findText_infix, get_lines]
  cases (headers.lines transferEncoding).head? with
  | none =>
    have hnone : ¬ascii "chunked" <:+: [] := by
      rw [List.infix_nil]
      decide +kernel
    simpa [toLower] using hnone
  | some line => simp [Worded]

theorem listItems_flatMap {lines : List Bytes} (h : lines ≠ []) :
    listItems lines = lines.flatMap (fun line => line.splitOn 44) := by
  induction lines with
  | nil => exact absurd rfl h
  | cons line lines ih =>
    cases lines with
    | nil => simp [listItems, List.intercalate]
    | cons next lines =>
      have hjoin : ([44] : Bytes).intercalate (line :: next :: lines) =
          line ++ 44 :: ([44] : Bytes).intercalate (next :: lines) := by
        simp [List.intercalate]
      rw [listItems, hjoin, List.splitOn_append_cons_self, List.flatMap_cons, ← ih (by simp), listItems]

theorem worded_split (l r : Bytes) : Worded (l ++ 44 :: r) ↔ Worded l ∨ Worded r := by
  have hcomma : toLower (l ++ 44 :: r) = toLower l ++ 44 :: toLower r := by
    simp only [toLower, List.map_append, List.map_cons]
    rfl
  rw [Worded, hcomma, infix_split _ _ (by decide)]
  rfl

theorem worded_items (line : Bytes) : Worded line ↔ ∃ item ∈ line.splitOn 44, Worded item := by
  induction hn : line.length using Nat.strong_induction_on generalizing line with
  | _ n ih =>
    by_cases hc : (44 : UInt8) ∈ line
    · obtain ⟨l, r, rfl, hl⟩ := List.eq_append_cons_of_mem hc
      have hshorter : r.length < n := by
        simp only [List.length_append, List.length_cons] at hn
        omega
      rw [worded_split, ih r.length hshorter r rfl, List.splitOn_append_cons_self_of_not_mem hl]
      simp
    · rw [List.splitOn_eq_singleton hc]
      simp

theorem codingOf_worded {item : Bytes} (h : codingOf item = ascii "chunked") : Worded item := by
  have htrim : trim (upTo 59 item) <:+: item :=
    ((List.rdropWhile_prefix isspace _).isInfix.trans (List.dropWhile_suffix isspace).isInfix).trans
      (List.takeWhile_prefix _).isInfix
  have hlower := htrim.map tolower
  rw [Worded, ← h]
  exact hlower

theorem Orderly.last_chunked {lines : List Bytes} (h : Orderly lines) :
    (∃ line ∈ lines.head?, Worded line) ↔ (codings lines).getLast? = some (ascii "chunked") := by
  obtain ⟨hfirst, hlast⟩ := h
  constructor
  · rintro ⟨line, hline, hworded⟩
    obtain ⟨item, hitem, hword⟩ := (worded_items line).mp hworded
    have hmem : item ∈ listItems lines := by
      rw [listItems_flatMap (by rintro rfl; cases hline)]
      exact List.mem_flatMap.mpr ⟨line, List.mem_of_mem_head? hline, hitem⟩
    obtain ⟨before, after, hsplit⟩ := List.append_of_mem hmem
    obtain ⟨hchunked, hafter⟩ := hlast before item after hsplit hword
    have hrest : (after.map codingOf).filter (fun coding => coding ≠ []) = [] := by
      simpa using hafter
    have hne : ascii "chunked" ≠ [] := by decide +kernel
    rw [codings, hsplit, List.map_append, List.map_cons, List.filter_append, hchunked,
      List.filter_cons_of_pos (by simpa using hne), hrest]
    simp
  · intro hget
    have hmem : ascii "chunked" ∈ (listItems lines).map codingOf :=
      List.mem_of_mem_filter (List.mem_of_getLast? hget)
    obtain ⟨item, hitem, hcoding⟩ := List.mem_map.mp hmem
    have hword := codingOf_worded hcoding
    cases lines with
    | nil =>
      have hnil : item = [] := by simpa [listItems, List.intercalate] using hitem
      rw [hnil] at hcoding
      exact absurd hcoding (by decide +kernel)
    | cons line lines =>
      rw [listItems_flatMap (by simp)] at hitem
      obtain ⟨on, hon, hin⟩ := List.mem_flatMap.mp hitem
      have hworded : Worded on := (worded_items on).mpr ⟨item, hin, hword⟩
      rcases List.mem_cons.mp hon with rfl | htail
      · exact ⟨on, rfl, hworded⟩
      · exact absurd hworded (hfirst on htail)

def Headers.SameBesides (headers headers' : Headers) : Prop :=
  ∀ name, toLower name ≠ toLower transferEncoding → headers.lines name = headers'.lines name

theorem inspectHead_besides {headers headers' : Headers} (url : Url) (request : Request) (info : ResponseInfo)
    (hsame : headers.SameBesides headers')
    (hword : (∃ line ∈ (headers.lines transferEncoding).head?, Worded line) ↔
      ∃ line ∈ (headers'.lines transferEncoding).head?, Worded line) :
    inspectHead url request info headers = inspectHead url request info headers' := by
  have hget (name : Bytes) (h : toLower name ≠ toLower transferEncoding) : headers.get name = headers'.get name := by
    rw [Headers.get_lines, Headers.get_lines, hsame name h]
  have hcontains : headers.contains (ascii "Transfer-Encoding") (ascii "chunked") =
      headers'.contains (ascii "Transfer-Encoding") (ascii "chunked") := by
    rw [Bool.eq_iff_iff]
    exact headers.contains_worded.trans (hword.trans headers'.contains_worded.symm)
  have hlength : contentLength headers = contentLength headers' := by
    rw [contentLength, contentLength, hget (ascii "Content-Length") (by decide +kernel)]
  have hplace : placement request info.statusCode headers = placement request info.statusCode headers' := by
    unfold placement
    rw [hget (ascii "Content-Range") (by decide +kernel), hlength]
  unfold inspectHead
  rw [hget (ascii "Location") (by decide +kernel), hget (ascii "Content-Type") (by decide +kernel), hcontains, hlength,
    hplace]

def Source.Leads (source : Source) (line : Bytes) (headers : Headers) (rest : Source) : Prop :=
  ∃ mid, source.readLine = .ok (line, mid) ∧ mid.readHeaders {} = .ok (headers, rest)

theorem Source.Leads.respond {source source' rest : Source} {line : Bytes} {headers headers' : Headers}
    (h : source.Leads line headers rest) (h' : source'.Leads line headers' rest) (url : Url) (request : Request)
    (hsame : ∀ info, inspectHead url request info headers = inspectHead url request info headers') :
    source.respond url request = source'.respond url request := by
  obtain ⟨mid, hline, hheaders⟩ := h
  obtain ⟨mid', hline', hheaders'⟩ := h'
  by_cases hvalid : (parseStatusLine line).1 = true
  · rw [respond_proceed url request hline hvalid hheaders, respond_proceed url request hline' hvalid hheaders', hsame]
  · have hinvalid : (parseStatusLine line).1 = false := by simpa using hvalid
    simp only [Source.respond, hline, hline', hinvalid, if_true]

theorem performOnce_coding (url : Url) (request : Request) (answer : Option (ResponseInfo → Bool)) (polls : Bool)
    (sends : List Send) (ticks : List Tick) (line : Bytes) (headers : Headers) (rest : Source)
    (h : (Source.ofTicks polls request.idleTimeoutMs ticks).Leads line headers rest) :
    (∀ info head, inspectHead url request info headers = .ok head →
      (head.chunked = true ↔ ∃ first ∈ (headers.lines transferEncoding).head?, Worded first) ∧
        (Orderly (headers.lines transferEncoding) →
          (head.chunked = true ↔ (codings (headers.lines transferEncoding)).getLast? = some (ascii "chunked")))) ∧
      ∀ ticks' headers', (Source.ofTicks polls request.idleTimeoutMs ticks').Leads line headers' rest →
        headers.SameBesides headers' →
        ((∃ first ∈ (headers.lines transferEncoding).head?, Worded first) ↔
          ∃ first ∈ (headers'.lines transferEncoding).head?, Worded first) →
        (observe url request answer polls sends ticks).1 = (observe url request answer polls sends ticks').1 ∧
          (observe url request answer polls sends ticks).2.headers =
            (observe url request answer polls sends ticks').2.headers ∧
          (observe url request answer polls sends ticks).2.body.flatten =
            (observe url request answer polls sends ticks').2.body.flatten := by
  constructor
  · intro info head hhead
    have hchunked : head.chunked = true ↔ ∃ first ∈ (headers.lines transferEncoding).head?, Worded first := by
      rw [(inspectHead_framing hhead).2]
      exact headers.contains_worded
    exact ⟨hchunked, fun horderly => hchunked.trans horderly.last_chunked⟩
  · intro ticks' headers' h' hsame hword
    have hrespond := h.respond h' url request (fun info => inspectHead_besides url request info hsame hword)
    apply observe_reply
    simp only [Opened.reply, hrespond]

theorem Source.leads_lines (status : Line) (fields : List Field) (eol : Eol) (data : Bytes) (stop : Stop)
    (hcount : fields.length ≤ kMaxHeaderCount) :
    Source.Leads ⟨status.render ++ (fields.flatMap Field.render ++ (eol.bytes ++ data)), stop⟩ status.text
      ⟨fields.map Field.item⟩ ⟨data, stop⟩ := by
  refine ⟨_, readLine_line status _ stop, ?_⟩
  exact readHeaders_fields fields eol data stop {} (by simpa [Headers.size] using hcount)

def codingField (value : Bytes) (h : 10 ∉ value ∧ Trimmed value ∧ value.length ≤ 20) : Field :=
  Field.of transferEncoding value ⟨by decide +kernel, by decide +kernel, h.1, h.2.1, by
    have := h.2.2
    simp only [List.length_append, List.length_cons, List.length_nil, Eol.cr, kMaxLineLength,
      show transferEncoding.length = 17 from rfl]
    omega⟩

def codedResponse (fields : List Field) : Bytes :=
  okLine.render ++ (fields.flatMap Field.render ++ (Eol.crlf.bytes ++ ascii "2\r\nhi\r\n0\r\n\r\n"))

theorem performOnce_coding_joined :
    let joined : Segment := ⟨codedResponse [codingField (ascii "gzip, Chunked") (by decide +kernel)],
      by decide +kernel, by decide +kernel⟩
    let other : Segment := ⟨codedResponse [codingField (ascii "chunked;q=1") (by decide +kernel),
      codingField (ascii "x") (by decide +kernel)], by decide +kernel, by decide +kernel⟩
    let url : Url := ⟨ascii "http", ascii "h", ascii "80", ascii "/"⟩
    let run := fun segment : Segment =>
      (observe url { url := [] } none true [.wrote 4096] [⟨false, .data segment⟩, ⟨false, .closed⟩]).2.body.flatten
    run joined = run other ∧ run joined = ascii "hi" := by
  intro joined other url run
  have hleads (fields : List Field) (segment : Segment) (hs : segment.bytes = codedResponse fields)
      (hcount : fields.length ≤ kMaxHeaderCount) :
      (Source.ofTicks true 30000 [⟨false, .data segment⟩, ⟨false, .closed⟩]).Leads okLine.text
        ⟨fields.map Field.item⟩ ⟨ascii "2\r\nhi\r\n0\r\n\r\n", .closed⟩ := by
    have hcuts : Cuts 30000 (segment.bytes ++ []) [⟨false, .data segment⟩, ⟨false, .closed⟩] :=
      .data segment (.closed [])
    rw [hcuts.source true, hs, List.append_nil]
    exact Source.leads_lines okLine fields .crlf _ .closed hcount
  have hjoined := hleads [codingField (ascii "gzip, Chunked") (by decide +kernel)] joined rfl (by decide)
  have hother := hleads [codingField (ascii "chunked;q=1") (by decide +kernel),
    codingField (ascii "x") (by decide +kernel)] other rfl (by decide)
  obtain ⟨-, hsame⟩ := performOnce_coding url { url := [] } none true [.wrote 4096] _ _ _ _ hjoined
  refine ⟨(hsame _ _ hother ?_ ?_).2.2, by decide +kernel⟩
  · intro name hname
    have hne : ∀ value h, ((codingField value h).item.1 == toLower name) = false :=
      fun value h => beq_eq_false_iff_ne.mpr (fun heq => hname heq.symm)
    simp [Headers.lines, hne]
  · have hfirst : Worded (ascii "gzip, Chunked") ∧ Worded (ascii "chunked;q=1") := by decide +kernel
    exact iff_of_true ⟨_, rfl, hfirst.1⟩ ⟨_, rfl, hfirst.2⟩

theorem performOnce_coding_split :
    let one := [codingField (ascii "gzip, chunked") (by decide +kernel)]
    let two := [codingField (ascii "gzip") (by decide +kernel), codingField (ascii "chunked") (by decide +kernel)]
    let url : Url := ⟨ascii "http", ascii "h", ascii "80", ascii "/"⟩
    let lines := fun fields : List Field => (⟨fields.map Field.item⟩ : Headers).lines transferEncoding
    let run := fun segment : Segment =>
      (observe url { url := [] } none true [.wrote 4096] [⟨false, .data segment⟩, ⟨false, .closed⟩]).2.body.flatten
    (codings (lines one) = codings (lines two) ∧ (codings (lines two)).getLast? = some (ascii "chunked")) ∧
      run ⟨codedResponse one, by decide +kernel, by decide +kernel⟩ = ascii "hi" ∧
      run ⟨codedResponse two, by decide +kernel, by decide +kernel⟩ = ascii "2\r\nhi\r\n0\r\n\r\n" := by
  decide +kernel

end BinderDownload.Http
