import BinderDownload.Http.Render
import BinderDownload.Http.Segmentation

namespace BinderDownload.Http

open Text

namespace Source

theorem lineFrom_text (line text rest : Bytes) (stop : Stop) (hlf : 10 ∉ text)
    (hshort : (line ++ text).length ≤ kMaxLineLength) :
    lineFrom line (text ++ 10 :: rest) stop = .ok (Reader.chomp (line ++ text), ⟨rest, stop⟩) := by
  induction text generalizing line with
  | nil => simp [lineFrom]
  | cons c cs ih =>
    have hc : c ≠ 10 := fun h => hlf (h ▸ List.mem_cons_self)
    have hcs : 10 ∉ cs := fun h => hlf (List.mem_cons_of_mem c h)
    have hroom : ¬kMaxLineLength ≤ line.length := by
      simp only [List.length_append, List.length_cons] at hshort
      omega
    rw [List.cons_append, lineFrom, if_neg hc, if_neg hroom, ih (line ++ [c]) hcs (by simpa using hshort)]
    simp

theorem chomp_cr (line : Line) : Reader.chomp (line.text ++ line.eol.cr) = line.text := by
  have hcr := line.no_cr
  unfold Reader.chomp Eol.cr
  cases line.eol with
  | lf => simp [hcr]
  | crlf => simp

theorem readLine_line (line : Line) (rest : Bytes) (stop : Stop) :
    readLine ⟨line.render ++ rest, stop⟩ = .ok (line.text, ⟨rest, stop⟩) := by
  have hlf : 10 ∉ line.text ++ line.eol.cr := by
    have := line.no_lf
    unfold Eol.cr
    cases line.eol <;> simp [this]
  have h := lineFrom_text [] (line.text ++ line.eol.cr) rest stop hlf (by simpa using line.short)
  rw [readLine, Line.render, Eol.bytes]
  simpa [chomp_cr] using h

def blankLine (eol : Eol) : Line where
  text := []
  eol := eol
  no_lf := by simp
  no_cr := by simp
  short := by cases eol <;> simp [Eol.cr, kMaxLineLength]

theorem readLine_blank (eol : Eol) (rest : Bytes) (stop : Stop) :
    readLine ⟨eol.bytes ++ rest, stop⟩ = .ok ([], ⟨rest, stop⟩) := readLine_line (blankLine eol) rest stop

theorem readHeaders_blank (eol : Eol) (rest : Bytes) (stop : Stop) (headers : Headers) :
    readHeaders ⟨eol.bytes ++ rest, stop⟩ headers = .ok (headers, ⟨rest, stop⟩) := by
  rw [readHeaders]
  split <;> rename_i h <;> rw [readLine_blank] at h <;> cases h
  rfl

theorem token_trimmed {name : Bytes} (h : ∀ c ∈ name, isToken c = true) : Trimmed name :=
  ⟨fun c hc => (token_class c (h c (List.mem_of_mem_head? hc))).1,
    fun c hc => (token_class c (h c (List.mem_of_getLast? hc))).1⟩

theorem readHeaders_field (field : Field) (rest : Bytes) (stop : Stop) (headers : Headers)
    (hcount : headers.size < kMaxHeaderCount) :
    readHeaders ⟨field.render ++ rest, stop⟩ headers =
      readHeaders ⟨rest, stop⟩ ⟨headers.mItems ++ [field.item]⟩ := by
  have hne : field.line.text ≠ [] := by simp [Field.line]
  have hcolon : find 58 field.line.text = some field.name.length :=
    find_split 58 _ _ (fun h => (token_class _ (field.token _ h)).2.1 rfl)
  have hname : trim (field.line.text.take field.name.length) = field.name := by
    rw [Field.line, List.take_left' rfl]
    exact trim_trimmed _ (token_trimmed field.token)
  have hvalue : trim (field.line.text.drop (field.name.length + 1)) = field.value := by
    rw [Field.line, ← List.drop_drop, List.drop_left' rfl, List.drop_succ_cons, List.drop_zero]
    exact trim_pad _ _ _ (fun c hc => (blank_class c (field.blank c (List.mem_append_left _ hc))).1)
      (fun c hc => (blank_class c (field.blank c (List.mem_append_right _ hc))).1) field.trimmed
  rw [readHeaders]
  split <;> rename_i h <;> rw [Field.render, readLine_line] at h <;> cases h
  rw [if_neg hne]
  simp only [hcolon, Nat.not_le.mpr hcount, if_false, hname, hvalue]
  rfl

theorem readHeaders_fields (fields : List Field) (eol : Eol) (rest : Bytes) (stop : Stop) (headers : Headers)
    (hcount : headers.size + fields.length ≤ kMaxHeaderCount) :
    readHeaders ⟨fields.flatMap Field.render ++ (eol.bytes ++ rest), stop⟩ headers =
      .ok (⟨headers.mItems ++ fields.map Field.item⟩, ⟨rest, stop⟩) := by
  induction fields generalizing headers with
  | nil => simpa using readHeaders_blank eol rest stop headers
  | cons field fields ih =>
    rw [List.length_cons] at hcount
    rw [List.flatMap_cons, List.append_assoc, readHeaders_field field _ stop headers (by omega), ih]
    · simp
    · simp only [Headers.size, List.length_append, List.length_singleton] at hcount ⊢
      omega

theorem trailers_lines (lines : List Line) (eol : Eol) (rest : Bytes) (stop : Stop)
    (hne : ∀ line ∈ lines, line.text ≠ []) :
    trailers ⟨lines.flatMap Line.render ++ (eol.bytes ++ rest), stop⟩ = .ok () := by
  induction lines with
  | nil =>
    rw [trailers]
    split <;> rename_i h <;> rw [List.flatMap_nil, List.nil_append, readLine_blank] at h <;> cases h
    rfl
  | cons line lines ih =>
    rw [trailers]
    split <;> rename_i h <;> rw [List.flatMap_cons, List.append_assoc, readLine_line] at h <;> cases h
    rw [if_neg (hne line (by simp))]
    exact ih (fun l hl => hne l (by simp [hl]))

end Source

theorem SizeLine.header {n : ℕ} (size : SizeLine n) : chunkHeader size.line.text = size.digits := by
  have hdigits : Trimmed size.digits := by
    have hd := fun c hc => (digit_class c (size.spells.2.1 c hc)).1
    exact ⟨fun c hc => hd c (List.mem_of_mem_head? hc), fun c hc => hd c (List.mem_of_getLast? hc)⟩
  have htrim : trim (size.digits ++ size.pad) = size.digits := by
    have h := trim_pad [] size.digits size.pad (by simp) (fun c hc => (blank_class c (size.blank c hc)).1) hdigits
    simpa using h
  have hsemi : 59 ∉ size.digits ++ size.pad := by
    rw [List.mem_append, not_or]
    exact ⟨fun h => (digit_not_cr _ (size.spells.2.1 _ h)).2.2 rfl,
      fun h => (blank_class _ (size.blank _ h)).2.2.2 rfl⟩
  unfold chunkHeader SizeLine.line
  rcases size.semi with he | he
  · simp only [he, List.append_nil, find_none 59 _ hsemi, htrim]
  · obtain ⟨ext, hext⟩ : ∃ ext, size.extension = 59 :: ext := by
      cases hx : size.extension with
      | nil => simp [hx] at he
      | cons c ext =>
        rw [hx, List.head?_cons, Option.some.injEq] at he
        exact ⟨ext, by rw [he]⟩
    simp only [hext, find_split 59 _ ext hsemi, List.take_left' rfl, htrim]

namespace Source

theorem plain_exact (data rest : Bytes) (stop : Stop) :
    plain ⟨data ++ rest, stop⟩ (data.length : ℤ) 0 = (data, .ok ⟨rest, stop⟩) := by
  simp [plain]

theorem chunked_coding (chunks : List Chunk) (last : SizeLine 0) (tail : Bytes) (stop : Stop)
    (hsize : ∀ chunk ∈ chunks, chunk.data.length < 2 ^ 63) :
    chunked ⟨chunks.flatMap Chunk.render ++ (last.line.render ++ tail), stop⟩ =
      (chunks.flatMap Chunk.data, trailers ⟨tail, stop⟩) := by
  induction chunks with
  | nil =>
    have hstr := strtoll_hex last.digits 0 last.spells
    have hpos := List.length_pos_iff.mpr last.spells.1
    rw [List.flatMap_nil, List.nil_append, chunked_last (readLine_line last.line tail stop)]
    · rfl
    · rw [last.header, hstr]
      simp only
      omega
    · rw [last.header, hstr]
      rfl
  | cons chunk chunks ih =>
    have hlen := hsize chunk (by simp)
    have hclamp := clamp_nat _ hlen
    have hstr := strtoll_hex chunk.size.digits _ chunk.size.spells
    have hpos := List.length_pos_iff.mpr chunk.size.spells.1
    have hdata := List.length_pos_iff.mpr chunk.ne_nil
    have hvalue : (strtoll (chunkHeader chunk.size.line.text) 16).1 = chunk.data.length := by
      rw [chunk.size.header, hstr, hclamp]
    rw [List.flatMap_cons, Chunk.render, List.append_assoc, List.append_assoc, List.append_assoc]
    have hplain := plain_exact chunk.data
      (chunk.eol.bytes ++ (chunks.flatMap Chunk.render ++ (last.line.render ++ tail))) stop
    rw [← hvalue] at hplain
    rw [chunked_chunk (readLine_line chunk.size.line _ stop) (by rw [chunk.size.header, hstr]; exact hpos.ne')
      (by rw [hvalue]; omega) (by rw [hplain]) (readLine_blank chunk.eol _ stop), hplain,
      ih (fun c hc => hsize c (by simp [hc])), List.flatMap_cons]

end Source

section Response

variable {body : Bytes} (response : Response body)

def Response.headers : Headers := ⟨response.fields.map Field.item⟩

theorem Response.headers_get (name : Bytes) : response.headers.get name = response.first name := by
  unfold Headers.get headers first
  rw [List.find?_map]
  cases h : response.fields.find? (fun field => toLower field.name == toLower name) with
  | none => simp [Function.comp_def, Field.item, h]
  | some field => simp [Function.comp_def, Field.item, h]

theorem Response.first_framing (name : Bytes)
    (hname : ∀ field ∈ response.before ++ response.after, ¬field.Named name) :
    response.first name = ((response.framing.fields.find? (fun field =>
      toLower field.name == toLower name)).map Field.value).getD [] := by
  have hnone (fields : List Field) (h : ∀ field ∈ fields, field ∈ response.before ++ response.after) :
      fields.find? (fun field => toLower field.name == toLower name) = none := by
    rw [List.find?_eq_none]
    intro field hf
    simpa [Field.Named] using hname field (h field hf)
  unfold first fields
  rw [List.find?_append, List.find?_append, hnone response.before (fun f hf => List.mem_append_left _ hf),
    hnone response.after (fun f hf => List.mem_append_right _ hf)]
  simp

theorem Response.framing_head :
    (contentLength response.headers = match response.framing with
      | .length _ _ _ => (body.length : ℤ)
      | _ => -1) ∧
    (response.headers.contains (ascii "Transfer-Encoding") (ascii "chunked") = match response.framing with
      | .chunked _ _ _ _ _ => true
      | _ => false) := by
  have hl := response.first_framing (ascii "Content-Length") (fun f hf => (response.unframed f hf).1)
  have ht := response.first_framing (ascii "Transfer-Encoding") (fun f hf => (response.unframed f hf).2)
  have hne : toLower (ascii "Content-Length") ≠ toLower (ascii "Transfer-Encoding") := by decide
  unfold contentLength Headers.contains
  rw [response.headers_get, response.headers_get, hl, ht]
  cases response.framing with
  | length field named spells =>
    have h1 : toLower field.name = toLower (ascii "Content-Length") := named
    have hv := strtoll_decimal field.value [] body.length spells (by simp)
    rw [List.append_nil, clamp_nat _ response.fits] at hv
    have hnone : findText (toLower (ascii "chunked")) (toLower []) = none := by decide
    simp [Framing.fields, h1, hne, spells.1, hv, hnone]
  | chunked field named value coding decodes =>
    have h1 : toLower field.name = toLower (ascii "Transfer-Encoding") := named
    simp [Framing.fields, h1, hne.symm, value]
    decide
  | close =>
    simp [Framing.fields]
    decide

theorem Response.status_parsed :
    (parseStatusLine response.status.text).1 = true ∧
      (parseStatusLine response.status.text).2.1 = response.code := by
  obtain ⟨hlo, hhi⟩ := response.code_range
  have htail : ∀ c ∈ ((response.reason.map (fun r => 32 :: r)).getD []).head?, isDigit 10 c = false := by
    cases response.reason with
    | none => simp
    | some r => simp; decide
  have hcode : atoi (decimal response.code ++ (response.reason.map (fun r => 32 :: r)).getD []) =
      response.code := by
    rw [atoi, strtoll_decimal _ _ response.code (decimal_spells _) htail, clamp_nat _ (by omega)]
    exact toInt32_small (by omega) (by omega)
  have hspace : find 32 response.status.text = some 8 := by
    rw [response.status_eq]
    exact find_split 32 (ascii "HTTP/1.1") _ (by decide)
  have htake : response.status.text.take 5 = ascii "HTTP/" := by
    rw [response.status_eq]
    rfl
  have hdrop : response.status.text.drop (8 + 1) =
      decimal response.code ++ (response.reason.map (fun r => 32 :: r)).getD [] := by
    rw [response.status_eq, List.append_assoc]
    rfl
  unfold parseStatusLine
  rw [if_neg (by simp [htake]), hspace]
  simp only [hdrop, hcode]
  exact ⟨by simp; omega, trivial⟩

def Response.info (url : Url) (request : Request) : ResponseInfo where
  statusCode := response.code
  reason := (parseStatusLine response.status.text).2.2
  contentType := response.first (ascii "Content-Type")
  startOffset := (placement request response.code response.headers).1
  totalBytes := (placement request response.code response.headers).2
  finalUrl := url.toString

def Response.announces (url : Url) (request : Request) : Head where
  info := response.info url request
  contentLength := contentLength response.headers
  chunked := response.headers.contains (ascii "Transfer-Encoding") (ascii "chunked")

def Response.reply (url : Url) (request : Request) : Reply :=
  ⟨some { result := { response := response.info url request, bytes := body.length } },
    some (response.info url request), body⟩

theorem Response.body_framing (url : Url) (request : Request) (extra : Bytes) (stop : Stop)
    (hend : response.framing.delimited = true ∨ extra = [] ∧ stop = .closed) :
    Source.body ⟨response.framing.payload ++ extra, stop⟩ (response.announces url request) = (body, .ok ()) := by
  generalize hhead : response.announces url request = head
  obtain ⟨hl, hc⟩ := response.framing_head
  rw [show contentLength response.headers = head.contentLength by rw [← hhead]; rfl] at hl
  rw [show response.headers.contains (ascii "Transfer-Encoding") (ascii "chunked") = head.chunked by
    rw [← hhead]; rfl] at hc
  have hfits := response.fits
  cases hf : response.framing with
  | length field named spells =>
    rw [hf] at hl hc
    simp only at hl hc
    simp [Source.body, hc, hl, Framing.payload, Source.plain_exact, Except.map]
  | chunked field named value coding decodes =>
    rw [hf] at hl hc
    simp only at hl hc
    have hsize : ∀ chunk ∈ coding.chunks, chunk.data.length < 2 ^ 63 := by
      intro chunk hchunk
      have hsub : chunk.data.length ≤ (coding.chunks.flatMap Chunk.data).length := by
        rw [List.length_flatMap]
        exact List.le_sum_of_mem (List.mem_map_of_mem hchunk)
      rw [show coding.chunks.flatMap Chunk.data = body from decodes] at hsub
      omega
    have hcoding := Source.chunked_coding coding.chunks coding.last
      (coding.trailers.flatMap Line.render ++ (coding.eol.bytes ++ extra)) stop hsize
    rw [Source.trailers_lines _ _ _ _ coding.trailers_ne, show coding.chunks.flatMap Chunk.data = body from decodes]
      at hcoding
    rw [Source.body, if_pos hc]
    simpa only [Framing.payload, Chunked.render, List.append_assoc] using hcoding
  | close =>
    rw [hf] at hl hc hend
    simp only [Framing.delimited] at hl hc hend
    obtain ⟨rfl, rfl⟩ := hend.resolve_left (by simp)
    simp [Source.body, hc, hl, Framing.payload, Source.plain, Except.map]

theorem Response.inspectHead_ok (url : Url) (request : Request) (hcode : response.code < 400)
    (hredirect : isRedirect response.code = false) :
    inspectHead url request { statusCode := response.code
                              reason := (parseStatusLine response.status.text).2.2 } response.headers =
      .ok (response.announces url request) := by
  simp only [inspectHead, hredirect, show ¬(400 : ℤ) ≤ (response.code : ℤ) by omega, if_false,
    response.headers_get, announces, info, Bool.false_eq_true]

def Response.top : Bytes := response.status.render ++ (response.fields.flatMap Field.render ++ response.eol.bytes)

theorem Response.render_eq : response.render = response.top ++ response.framing.payload := by
  simp only [render, top, List.append_assoc]

theorem Response.respond_inspect (url : Url) (request : Request) (data : Bytes) (stop : Stop) :
    Source.respond url request ⟨response.top ++ data, stop⟩ =
      Source.proceed ⟨data, stop⟩
        (inspectHead url request { statusCode := response.code
                                   reason := (parseStatusLine response.status.text).2.2 } response.headers) := by
  have hline := Source.readLine_line response.status
    (response.fields.flatMap Field.render ++ (response.eol.bytes ++ data)) stop
  have hheaders := Source.readHeaders_fields response.fields response.eol data stop {}
    (by simpa [Headers.size, fields] using response.count)
  obtain ⟨hvalid, hstatus⟩ := response.status_parsed
  rw [show (⟨[] ++ response.fields.map Field.item⟩ : Headers) = response.headers from rfl] at hheaders
  rw [top, List.append_assoc, List.append_assoc, Source.respond_proceed url request hline hvalid hheaders, hstatus]

theorem Response.respond_top (url : Url) (request : Request) (data : Bytes) (stop : Stop)
    (hcode : response.code < 400) (hredirect : isRedirect response.code = false) :
    Source.respond url request ⟨response.top ++ data, stop⟩ =
      ⟨Source.ending (response.info url request) (Source.body ⟨data, stop⟩ (response.announces url request)).1.length
          (Source.body ⟨data, stop⟩ (response.announces url request)).2, some (response.info url request),
        (Source.body ⟨data, stop⟩ (response.announces url request)).1⟩ := by
  rw [response.respond_inspect, response.inspectHead_ok url request hcode hredirect]
  rfl

theorem Response.respond_status (url : Url) (request : Request) (data : Bytes) (stop : Stop)
    (hcode : 400 ≤ response.code) :
    ∃ attempt : Attempt, attempt.redirectTo = [] ∧ attempt.result.error = .httpStatus ∧
      Source.respond url request ⟨response.top ++ data, stop⟩ = ⟨some attempt, none, []⟩ := by
  have hredirect : isRedirect (response.code : ℤ) = false := by
    simp only [isRedirect, decide_eq_false_iff_not]
    omega
  rw [response.respond_inspect]
  simp only [inspectHead, hredirect, show (400 : ℤ) ≤ (response.code : ℤ) by omega, if_true, Bool.false_eq_true,
    if_false]
  exact ⟨_, rfl, rfl, rfl⟩

theorem Response.respond_render (url : Url) (request : Request) (extra : Bytes) (stop : Stop)
    (hcode : response.code < 400) (hredirect : isRedirect response.code = false)
    (hend : response.framing.delimited = true ∨ extra = [] ∧ stop = .closed) :
    Source.respond url request ⟨response.render ++ extra, stop⟩ = response.reply url request := by
  rw [response.render_eq, List.append_assoc, response.respond_top url request _ stop hcode hredirect,
    response.body_framing url request extra stop hend]
  rfl

end Response

/-- A schedule that delivers `stream`, in any cuts and with any retries in between; what comes behind it
is left open. -/
inductive Delivers (idleTimeoutMs : ℤ) : Bytes → List Tick → Prop
  | done (rest : List Tick) : Delivers idleTimeoutMs [] rest
  | data {stream : Bytes} {ticks : List Tick} (segment : Segment) (h : Delivers idleTimeoutMs stream ticks) :
      Delivers idleTimeoutMs (segment.bytes ++ stream) (⟨false, .data segment⟩ :: ticks)
  | again {stream : Bytes} {ticks : List Tick} (elapsedMs : ℤ) (he : elapsedMs < idleTimeoutMs)
      (h : Delivers idleTimeoutMs stream ticks) : Delivers idleTimeoutMs stream (⟨false, .again elapsedMs⟩ :: ticks)

theorem Delivers.source {idleTimeoutMs : ℤ} {stream : Bytes} {ticks : List Tick} (polls : Bool)
    (h : Delivers idleTimeoutMs stream ticks) :
    ∃ extra stop, Source.ofTicks polls idleTimeoutMs ticks = ⟨stream ++ extra, stop⟩ := by
  induction h with
  | done rest => exact ⟨_, _, rfl⟩
  | data segment h ih =>
    obtain ⟨extra, stop, ih⟩ := ih
    exact ⟨extra, stop, by simp [Source.ofTicks, ih]⟩
  | again elapsedMs he h ih =>
    obtain ⟨extra, stop, ih⟩ := ih
    exact ⟨extra, stop, by simp [Source.ofTicks, ih, he]⟩

def Response.Arrives {body : Bytes} (response : Response body) (idleTimeoutMs : ℤ) (ticks : List Tick) : Prop :=
  response.framing.delimited = true ∧ (∃ extra, Delivers idleTimeoutMs (response.render ++ extra) ticks) ∨
    Cuts idleTimeoutMs response.render ticks

theorem Response.Arrives.source {body : Bytes} {response : Response body} {idleTimeoutMs : ℤ} {ticks : List Tick}
    (polls : Bool) (h : response.Arrives idleTimeoutMs ticks) :
    ∃ rest stop, Source.ofTicks polls idleTimeoutMs ticks = ⟨response.render ++ rest, stop⟩ ∧
      (response.framing.delimited = true ∨ rest = [] ∧ stop = .closed) := by
  rcases h with ⟨hframed, extra, h⟩ | h
  · obtain ⟨rest, stop, hs⟩ := h.source polls
    exact ⟨extra ++ rest, stop, by rw [hs, List.append_assoc], .inl hframed⟩
  · exact ⟨[], .closed, by rw [h.source polls, List.append_nil], .inr ⟨rfl, rfl⟩⟩

theorem Response.Arrives.reply {body : Bytes} {response : Response body} {url : Url} {request : Request}
    {sends : List Send} {ticks : List Tick} (polls : Bool) (h : response.Arrives request.idleTimeoutMs ticks)
    (hsent : sendAll (requestHead url request).length sends = .ok ()) (hcode : response.code < 400)
    (hredirect : isRedirect response.code = false) :
    Opened.reply url request polls (.connected ⟨sends, ticks⟩) = response.reply url request := by
  obtain ⟨rest, stop, hsource, hend⟩ := h.source polls
  simp only [Opened.reply, hsent, hsource]
  exact response.respond_render url request rest stop hcode hredirect hend

theorem performOnce_round_trip (url : Url) (request : Request) (polls : Bool) (sends : List Send) (body : Bytes)
    (response : Response body) (ticks : List Tick)
    (hcode : 200 ≤ response.code ∧ response.code < 300 ∧ response.code ≠ 206)
    (hsent : sendAll (requestHead url request).length sends = .ok ())
    (harrives : response.Arrives request.idleTimeoutMs ticks) :
    ∃ attempt record, observe url request (some (fun _ => true)) polls sends ticks = (some attempt, record) ∧
      attempt.redirectTo = [] ∧ attempt.result.error = .ok ∧
      attempt.result.response.statusCode = response.code ∧
      attempt.result.response.contentType = response.first (ascii "Content-Type") ∧
      attempt.result.response.startOffset = 0 ∧ attempt.result.bytes = body.length ∧
      record.headers = [attempt.result.response] ∧ record.body.flatten = body := by
  have hredirect : isRedirect response.code = false := by
    simp only [isRedirect, decide_eq_false_iff_not]
    omega
  have hreply := harrives.reply polls hsent (by omega) hredirect
  obtain ⟨pieces, -, hflat, hperform⟩ := performOnce_deliver url request polls (.connected ⟨sends, ticks⟩)
  rw [hreply] at hflat
  have hplace : (placement request response.code response.headers).1 = 0 := by
    rw [placement, if_neg (by exact_mod_cast hcode.2.2)]
  refine ⟨{ result := { response := response.info url request, bytes := body.length } },
    ⟨[response.info url request], pieces⟩, ?_, rfl, rfl, rfl, rfl, hplace, rfl, rfl, hflat⟩
  rw [observe, hperform, hreply]
  simp [Response.reply, Reply.deliver, recorder_headers, feed_recorder]

def paddedSize : SizeLine 2 where
  digits := ascii "02"
  pad := []
  extension := ascii ";x=1"
  eol := .crlf
  spells := by decide +kernel
  blank := by simp
  semi := .inr rfl
  no_lf := by decide
  no_cr := by decide
  short := by decide

def shortestLast : SizeLine 0 where
  digits := ascii "0"
  pad := []
  extension := []
  eol := .lf
  spells := by decide +kernel
  blank := by simp
  semi := .inl rfl
  no_lf := List.not_mem_nil
  no_cr := by simp
  short := by decide

def mixedCoding : Field where
  name := ascii "transfer-ENCODING"
  value := ascii "Chunked"
  before := [32]
  after := []
  eol := .crlf
  name_ne := by decide
  token := by decide +kernel
  no_lf := by decide
  trimmed := by decide +kernel
  blank := blank_space
  short := by decide

theorem no_trailers : ∀ line ∈ ([] : List Line), line.text ≠ [] := by simp

def chunkedResponse : Response (ascii "hi") where
  code := 200
  reason := none
  status := ⟨ascii "HTTP/1.1 200", .lf, by decide, by decide, by decide⟩
  before := []
  after := []
  framing := .chunked mixedCoding (by decide +kernel) (by decide +kernel)
    ⟨[⟨ascii "hi", by decide, paddedSize, .crlf⟩], shortestLast, [], no_trailers, .crlf⟩ rfl
  eol := .crlf
  status_eq := by decide +kernel
  code_range := by decide
  unframed := by simp
  count := by decide
  fits := by decide

theorem performOnce_round_trip_chunked :
    let response := chunkedResponse
    let segment : Segment := ⟨response.render ++ ascii "GET", by decide +kernel, by decide +kernel⟩
    let url : Url := ⟨ascii "http", ascii "h", ascii "80", ascii "/"⟩
    ∃ attempt record, observe url { url := [] } (some (fun _ => true)) true [.wrote 4096]
        [⟨false, .data segment⟩] = (some attempt, record) ∧
      attempt.result.bytes = 2 ∧ record.body.flatten = ascii "hi" := by
  intro response segment url
  obtain ⟨attempt, record, h, -, -, -, -, -, hbytes, -, hbody⟩ := performOnce_round_trip url { url := [] } true
    [.wrote 4096] (ascii "hi") response [⟨false, .data segment⟩] (by decide +kernel) (by decide +kernel)
    (.inl ⟨rfl, ascii "GET", by simpa using Delivers.data segment (.done [])⟩)
  exact ⟨attempt, record, h, hbytes, hbody⟩

end BinderDownload.Http
