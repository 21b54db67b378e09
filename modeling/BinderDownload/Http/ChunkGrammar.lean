import BinderDownload.Http.RoundTrip

namespace BinderDownload.Http

open Text

/-- `Coded size behind stream body`: chunks with the data `body` and a last chunk stand at the front of the
stream. What counts as a size line, and what may stand between the data and the end of its line, is open. -/
inductive Coded (size : Bytes → ℕ → Prop) (behind : Bytes → Prop) : Bytes → Bytes → Prop
  | last {line : Bytes} (rest : Bytes) (hline : 10 ∉ line) (hsize : size line 0) :
      Coded size behind (line ++ 10 :: rest) []
  | chunk {line data tail stream body : Bytes} (hline : 10 ∉ line) (hsize : size line data.length)
      (hdata : data ≠ []) (htail : 10 ∉ tail) (hbehind : behind tail) (h : Coded size behind stream body) :
      Coded size behind (line ++ 10 :: (data ++ (tail ++ 10 :: stream))) (data ++ body)

def PlainSize (line : Bytes) (n : ℕ) : Prop := Spells 16 (chunkHeader (Reader.chomp line)) n ∧ n < 2 ^ 63

def Bare (tail : Bytes) : Prop := tail = [] ∨ tail = [13]

def ChunkGrammar (stream body : Bytes) : Prop := Coded PlainSize Bare stream body

def ReadSize (line : Bytes) (n : ℕ) : Prop :=
  line.length ≤ kMaxLineLength ∧ (strtoll (chunkHeader (Reader.chomp line)) 16).2 ≠ 0 ∧
    (strtoll (chunkHeader (Reader.chomp line)) 16).1 = n

def Short (tail : Bytes) : Prop := tail.length ≤ kMaxLineLength

instance (line : Bytes) (n : ℕ) : Decidable (PlainSize line n) := inferInstanceAs (Decidable (_ ∧ _))
instance (tail : Bytes) : Decidable (Bare tail) := inferInstanceAs (Decidable (_ ∨ _))
instance (line : Bytes) (n : ℕ) : Decidable (ReadSize line n) := inferInstanceAs (Decidable (_ ∧ _))
instance (tail : Bytes) : Decidable (Short tail) := inferInstanceAs (Decidable (_ ≤ _))

/-- Chunks up to a last one, but somewhere a size line that `strtoll` understands is not a plain number,
or other bytes stand between the data of a chunk and the end of its line. -/
inductive Sloppy : Bytes → Prop
  | last {line : Bytes} (rest : Bytes) (hline : 10 ∉ line) (hsize : ReadSize line 0) (hslip : ¬PlainSize line 0) :
      Sloppy (line ++ 10 :: rest)
  | here {line data tail stream body : Bytes} (hline : 10 ∉ line) (hsize : ReadSize line data.length)
      (hdata : data ≠ []) (htail : 10 ∉ tail) (hbehind : Short tail)
      (hslip : ¬PlainSize line data.length ∨ ¬Bare tail) (h : Coded ReadSize Short stream body) :
      Sloppy (line ++ 10 :: (data ++ (tail ++ 10 :: stream)))
  | later {line data tail stream : Bytes} (hline : 10 ∉ line) (hsize : ReadSize line data.length)
      (hdata : data ≠ []) (htail : 10 ∉ tail) (hbehind : Short tail) (h : Sloppy stream) :
      Sloppy (line ++ 10 :: (data ++ (tail ++ 10 :: stream)))

theorem line_unique {line line' rest rest' : Bytes} (hline : 10 ∉ line) (hline' : 10 ∉ line')
    (h : line ++ 10 :: rest = line' ++ 10 :: rest') : line = line' ∧ rest = rest' := by
  have hfind := find_split 10 line rest hline
  rw [h, find_split 10 line' rest' hline'] at hfind
  obtain ⟨hl, hr⟩ := List.append_inj h (Option.some.inj hfind).symm
  exact ⟨hl, List.tail_eq_of_cons_eq hr⟩

theorem Coded.first {size : Bytes → ℕ → Prop} {behind : Bytes → Prop} {line rest body : Bytes} (hline : 10 ∉ line)
    (h : Coded size behind (line ++ 10 :: rest) body) :
    size line 0 ∨ ∃ data tail stream body', rest = data ++ (tail ++ 10 :: stream) ∧ size line data.length ∧ data ≠ [] ∧
      10 ∉ tail ∧ behind tail ∧ Coded size behind stream body' := by
  generalize hstream : line ++ 10 :: rest = stream at h
  cases h with
  | last rest' hline' hsize =>
    obtain ⟨rfl, -⟩ := line_unique hline hline' hstream
    exact .inl hsize
  | chunk hline' hsize hdata htail hbehind h =>
    obtain ⟨rfl, rfl⟩ := line_unique hline hline' hstream
    exact .inr ⟨_, _, _, _, rfl, hsize, hdata, htail, hbehind, h⟩

theorem ReadSize.plain {line : Bytes} {n m : ℕ} (hread : ReadSize line n) (hplain : PlainSize line m) : n = m := by
  obtain ⟨-, -, hn⟩ := hread
  rw [strtoll_hex _ m hplain.1, clamp_nat m hplain.2] at hn
  exact (Int.ofNat_inj.mp hn).symm

theorem data_unique {data data' tail tail' stream stream' : Bytes} (hlength : data.length = data'.length)
    (htail : 10 ∉ tail) (htail' : 10 ∉ tail')
    (h : data ++ (tail ++ 10 :: stream) = data' ++ (tail' ++ 10 :: stream')) : tail = tail' ∧ stream = stream' := by
  apply line_unique htail htail'
  exact (List.append_inj h hlength).2

theorem Sloppy.coded {stream : Bytes} (h : Sloppy stream) : ∃ body, Coded ReadSize Short stream body := by
  induction h with
  | last rest hline hsize hslip => exact ⟨_, .last rest hline hsize⟩
  | here hline hsize hdata htail hbehind hslip h => exact ⟨_, .chunk hline hsize hdata htail hbehind h⟩
  | later hline hsize hdata htail hbehind h ih =>
    obtain ⟨body, hbody⟩ := ih
    exact ⟨_, .chunk hline hsize hdata htail hbehind hbody⟩

theorem Coded.strict {stream body : Bytes} (h : Coded ReadSize Short stream body) (hs : ¬Sloppy stream) :
    ChunkGrammar stream body := by
  induction h with
  | last rest hline hsize =>
    apply Coded.last rest hline
    by_contra hslip
    exact hs (.last rest hline hsize hslip)
  | chunk hline hsize hdata htail hbehind h ih =>
    have hslip := fun hslip => hs (.here hline hsize hdata htail hbehind hslip h)
    rw [imp_false, not_or, not_not, not_not] at hslip
    exact .chunk hline hslip.1 hdata htail hslip.2 (ih (fun hrest => hs (.later hline hsize hdata htail hbehind hrest)))

theorem Sloppy.not_grammar {stream : Bytes} (h : Sloppy stream) : ∀ body, ¬ChunkGrammar stream body := by
  induction h with
  | last rest hline hsize hslip =>
    intro body hgrammar
    rcases hgrammar.first hline with hlast | ⟨data, tail, stream, body', -, hsize', hdata, -⟩
    · exact hslip hlast
    · exact hdata (List.eq_nil_of_length_eq_zero (hsize.plain hsize').symm)
  | here hline hsize hdata htail hbehind hslip h =>
    intro body hgrammar
    rcases hgrammar.first hline with hlast | ⟨data, tail, stream, body', hrest, hsize', -, htail', hbehind', -⟩
    · exact hdata (List.eq_nil_of_length_eq_zero (hsize.plain hlast))
    · have hlength := hsize.plain hsize'
      obtain ⟨rfl, -⟩ := data_unique hlength htail htail' hrest
      rw [hlength] at hslip
      exact hslip.elim (fun hslip => hslip hsize') (fun hslip => hslip hbehind')
  | later hline hsize hdata htail hbehind h ih =>
    intro body hgrammar
    rcases hgrammar.first hline with hlast | ⟨data, tail, stream, body', hrest, hsize', -, htail', -, h'⟩
    · exact hdata (List.eq_nil_of_length_eq_zero (hsize.plain hlast))
    · obtain ⟨-, rfl⟩ := data_unique (hsize.plain hsize') htail htail' hrest
      exact ih body' h'

namespace Source

theorem lineFrom_split {line data l : Bytes} {stop : Stop} {source : Source}
    (h : lineFrom line data stop = .ok (l, source)) :
    ∃ text rest, data = text ++ 10 :: rest ∧ 10 ∉ text ∧ (line ++ text).length ≤ max line.length kMaxLineLength ∧
      l = Reader.chomp (line ++ text) ∧ source = ⟨rest, stop⟩ := by
  induction data generalizing line with
  | nil => cases stop <;> simp [lineFrom] at h
  | cons c cs ih =>
    rw [lineFrom] at h
    split_ifs at h with hc hroom
    · simp only [Except.ok.injEq, Prod.mk.injEq] at h
      exact ⟨[], cs, by rw [hc, List.nil_append], by simp, by simp, by simp [h.1], h.2.symm⟩
    · obtain ⟨text, rest, rfl, htext, hlength, hl, hsource⟩ := ih h
      refine ⟨c :: text, rest, rfl, ?_, ?_, by simpa using hl, hsource⟩
      · rw [List.mem_cons, not_or]
        exact ⟨Ne.symm hc, htext⟩
      · simp only [List.length_append, List.length_cons, List.length_nil] at hlength ⊢
        omega

theorem readLine_split {source rest : Source} {l : Bytes} (h : source.readLine = .ok (l, rest)) :
    ∃ text, source.data = text ++ 10 :: rest.data ∧ rest.stop = source.stop ∧ 10 ∉ text ∧ Short text ∧
      l = Reader.chomp text := by
  obtain ⟨text, tail, hdata, htext, hlength, hl, rfl⟩ := lineFrom_split h
  exact ⟨text, hdata, rfl, htext, by simpa [Short] using hlength, hl⟩

theorem readLine_text {text : Bytes} (rest : Bytes) (stop : Stop) (htext : 10 ∉ text) (hshort : Short text) :
    readLine ⟨text ++ 10 :: rest, stop⟩ = .ok (Reader.chomp text, ⟨rest, stop⟩) :=
  lineFrom_text [] text rest stop htext hshort

theorem plain_data {data : Bytes} (rest : Bytes) (stop : Stop) :
    plain ⟨data ++ rest, stop⟩ data.length 0 = (data, .ok ⟨rest, stop⟩) := by
  simp [plain]

theorem chunked_coded {stream body : Bytes} (h : Coded ReadSize Short stream body) :
    chunked ⟨stream, .closed⟩ = (body, .ok ()) := by
  induction h with
  | last rest hline hsize =>
    obtain ⟨hshort, hread, hzero⟩ := hsize
    rw [chunked_last (readLine_text rest .closed hline hshort) hread (by simpa using hzero),
      trailers_returns _ (by simp [Returns])]
  | @chunk line data tail stream body hline hsize hdata htail hbehind h ih =>
    obtain ⟨hshort, hread, hlength⟩ := hsize
    have hpos : 0 < data.length := List.length_pos_iff.mpr hdata
    rw [chunked_chunk (readLine_text _ .closed hline hshort) hread (by omega)
      (by rw [hlength, plain_data]) (readLine_text stream .closed htail hbehind), hlength, plain_data, ih]

theorem chunked_ok {source : Source} (h : source.chunked.2 = .ok ()) :
    Coded ReadSize Short source.data source.chunked.1 := by
  fun_induction chunked source with
  | case1 source halt hr => simp at h
  | case2 source line rest hr header size hbad => simp at h
  | case3 source line rest hr header size hbad hz =>
    obtain ⟨text, hdata, -, htext, hshort, rfl⟩ := readLine_split hr
    rw [hdata]
    exact .last rest.data htext ⟨hshort, (not_or.mp hbad).1, hz⟩
  | case4 source line rest hr header size hbad hz data halt hd => simp at h
  | case5 source line rest hr header size hbad hz data rest2 hd halt he => simp at h
  | case6 source line rest hr header size hbad hz data rest2 hd line' rest3 he ih =>
    obtain ⟨text, hdata, -, htext, hshort, rfl⟩ := readLine_split hr
    obtain ⟨hdata2, hlength, -⟩ := plain_split (by omega) hd
    obtain ⟨tail, hdata3, -, htail, hbehind, -⟩ := readLine_split he
    rw [hdata, hdata2, hdata3]
    refine .chunk htext ⟨hshort, (not_or.mp hbad).1, hlength.symm⟩ (fun hnil => ?_) htail hbehind (ih h)
    rw [hnil] at hlength
    exact hz hlength.symm

theorem lineFrom_closed {line data : Bytes} {halt : Halt} (h : lineFrom line data .closed = .error halt) :
    ∃ message, halt = .failed .io message := by
  induction data generalizing line with
  | nil => exact ⟨_, (Except.error.inj h).symm⟩
  | cons c cs ih =>
    rw [lineFrom] at h
    split_ifs at h
    · exact ⟨_, (Except.error.inj h).symm⟩
    · exact ih h

theorem readLine_closed {source : Source} {halt : Halt} (hstop : source.stop = .closed)
    (h : source.readLine = .error halt) : ∃ message, halt = .failed .io message := by
  rw [readLine, hstop] at h
  exact lineFrom_closed h

theorem plain_closed_error {source : Source} {halt : Halt} {n : ℤ} (hstop : source.stop = .closed) (hn : 0 ≤ n)
    (h : (source.plain n 0).2 = .error halt) : ∃ message, halt = .failed .io message := by
  simp only [plain, if_neg (not_lt.mpr hn), hstop] at h
  split_ifs at h
  exact ⟨_, (Except.error.inj h).symm⟩

theorem chunked_closed {source : Source} {halt : Halt} (hstop : source.stop = .closed)
    (h : source.chunked.2 = .error halt) : ∃ message, halt = .failed .io message := by
  fun_induction chunked source with
  | case1 source halt' hr =>
    rw [← Except.error.inj h]
    exact readLine_closed hstop hr
  | case2 source line rest hr header size hbad => exact ⟨_, (Except.error.inj h).symm⟩
  | case3 source line rest hr header size hbad hz =>
    obtain ⟨text, -, hstop1, -⟩ := readLine_split hr
    rw [trailers_returns rest (by simp [Returns, hstop1, hstop])] at h
    simp at h
  | case4 source line rest hr header size hbad hz data halt' hd =>
    obtain ⟨text, -, hstop1, -⟩ := readLine_split hr
    rw [← Except.error.inj h]
    exact plain_closed_error (hstop1.trans hstop) (by omega) hd
  | case5 source line rest hr header size hbad hz data rest2 hd halt' he =>
    obtain ⟨text, -, hstop1, -⟩ := readLine_split hr
    obtain ⟨-, -, hstop2⟩ := plain_split (by omega) hd
    rw [← Except.error.inj h]
    exact readLine_closed (by rw [hstop2, hstop1, hstop]) he
  | case6 source line rest hr header size hbad hz data rest2 hd line' rest3 he ih =>
    obtain ⟨text, -, hstop1, -⟩ := readLine_split hr
    obtain ⟨-, -, hstop2⟩ := plain_split (by omega) hd
    obtain ⟨tail, -, hstop3, -⟩ := readLine_split he
    exact ih (by rw [hstop3, hstop2, hstop1, hstop]) h

end Source

def collect (taken : Bytes) (bytes : Bytes) : Bool × Bytes := (true, taken ++ bytes)

theorem feed_collect (taken : Bytes) (pieces : List Bytes) :
    (feed collect taken pieces).done = true ∧ (feed collect taken pieces).state = taken ++ pieces.flatten := by
  have htotal (taken bytes : Bytes) : collect taken bytes = (true, taken ++ id bytes) := rfl
  rw [feed_total htotal, List.foldl_append_eq_append, List.map_id]
  exact ⟨rfl, rfl⟩

theorem pumpChunked_collect (r : Reader) :
    (pumpChunked r collect [] 0).outcome = r.source.chunked.2 ∧
      (pumpChunked r collect [] 0).sink = r.source.chunked.1 := by
  obtain ⟨pieces, -, hflat, hpump⟩ := pumpChunked_delivery r
  obtain ⟨hdone, hstate⟩ := feed_collect [] pieces
  rw [hpump collect [] 0, delivery]
  exact ⟨by rw [if_pos hdone], by rw [hstate, List.nil_append, hflat]⟩

def Decodes (stream : Bytes) (pumped : Pumped Bytes Unit) : Prop :=
  (pumped.outcome = .ok () → ChunkGrammar stream pumped.sink) ∧
    ((∀ body, ¬ChunkGrammar stream body) → ∃ message, pumped.outcome = .error (.failed .io message))

theorem Sloppy.not_decodes {stream : Bytes} {r : Reader} (hr : r.source = ⟨stream, .closed⟩) (h : Sloppy stream) :
    ¬Decodes stream (pumpChunked r collect [] 0) := by
  rintro ⟨hok, -⟩
  obtain ⟨body, hbody⟩ := h.coded
  apply h.not_grammar _ (hok _)
  rw [(pumpChunked_collect r).1, hr, Source.chunked_coded hbody]

theorem pumpChunked_grammar (stream : Bytes) (r : Reader) (hr : r.source = ⟨stream, .closed⟩) :
    Decodes stream (pumpChunked r collect [] 0) ↔ ¬Sloppy stream := by
  refine ⟨fun hdecodes h => h.not_decodes hr hdecodes, fun hs => ?_⟩
  have hok : r.source.chunked.2 = .ok () → ChunkGrammar stream r.source.chunked.1 := by
    intro h
    have hcoded := Source.chunked_ok h
    rw [hr] at hcoded ⊢
    exact hcoded.strict hs
  rw [Decodes, (pumpChunked_collect r).1, (pumpChunked_collect r).2]
  refine ⟨hok, fun hnone => ?_⟩
  cases hc : r.source.chunked.2 with
  | ok u => exact absurd (hok hc) (hnone _)
  | error halt =>
    obtain ⟨message, rfl⟩ := Source.chunked_closed (by rw [hr]) hc
    exact ⟨message, rfl⟩

theorem PlainSize.read {line : Bytes} {n : ℕ} (hshort : Short line) (h : PlainSize line n) : ReadSize line n := by
  obtain ⟨hspells, hn⟩ := h
  have hvalue := strtoll_hex _ n hspells
  refine ⟨hshort, ?_, ?_⟩
  · rw [hvalue]
    exact (List.length_pos_iff.mpr hspells.1).ne'
  · rw [hvalue, clamp_nat n hn]

theorem Coded.mono {size size' : Bytes → ℕ → Prop} {behind behind' : Bytes → Prop} {stream body : Bytes}
    (hsize : ∀ line n, size line n → size' line n) (hbehind : ∀ tail, behind tail → behind' tail)
    (h : Coded size behind stream body) : Coded size' behind' stream body := by
  induction h with
  | last rest hline h => exact .last rest hline (hsize _ _ h)
  | chunk hline h hdata htail hb _ ih => exact .chunk hline (hsize _ _ h) hdata htail (hbehind _ hb) ih

theorem pumpChunked_accepts (stream body : Bytes) (r : Reader) (hr : r.source = ⟨stream, .closed⟩)
    (h : Coded (fun line n => Short line ∧ PlainSize line n) (fun tail => Short tail ∧ Bare tail) stream body) :
    (pumpChunked r collect [] 0).outcome = .ok () ∧ (pumpChunked r collect [] 0).sink = body := by
  have hread : Coded ReadSize Short stream body :=
    h.mono (fun line n h => h.2.read h.1) (fun tail h => h.1)
  rw [(pumpChunked_collect r).1, (pumpChunked_collect r).2, hr, Source.chunked_coded hread]
  exact ⟨rfl, rfl⟩

theorem pumpChunked_grammar_two :
    let hi : Segment := ⟨ascii "2\r\nhi\r\n0\r\n\r\n", by decide, by decide⟩
    let r := Reader.new [⟨false, .data hi⟩, ⟨false, .closed⟩] false 30000
    r.source = ⟨hi.bytes, .closed⟩ ∧ Decodes hi.bytes (pumpChunked r collect [] 0) := by
  intro hi r
  have hr : r.source = ⟨hi.bytes, .closed⟩ := by decide +kernel
  have hlast : ChunkGrammar (ascii "0\r" ++ 10 :: ascii "\r\n") [] := .last _ (by decide) (by decide +kernel)
  have hchunk : ChunkGrammar (ascii "2\r" ++ 10 :: (ascii "hi" ++ ([13] ++ 10 :: ascii "0\r\n\r\n")))
      (ascii "hi" ++ []) :=
    .chunk (by decide) (by decide +kernel) (by decide) (by decide) (by decide) hlast
  exact ⟨hr, (pumpChunked_grammar hi.bytes r hr).mpr (fun h => h.not_grammar _ hchunk)⟩

theorem pumpChunked_drops :
    let abc : Segment := ⟨ascii "1\r\nabc\r\n0\r\n\r\n", by decide, by decide⟩
    let r := Reader.new [⟨false, .data abc⟩, ⟨false, .closed⟩] false 30000
    r.source = ⟨abc.bytes, .closed⟩ ∧ (pumpChunked r collect [] 0).outcome = .ok () ∧
      (pumpChunked r collect [] 0).sink = ascii "a" ∧ ¬Decodes abc.bytes (pumpChunked r collect [] 0) := by
  intro abc r
  have hr : r.source = ⟨abc.bytes, .closed⟩ := by decide +kernel
  have hlast : Coded ReadSize Short (ascii "0\r" ++ 10 :: ascii "\r\n") [] := .last _ (by decide) (by decide +kernel)
  have hsloppy : Sloppy (ascii "1\r" ++ 10 :: (ascii "a" ++ (ascii "bc\r" ++ 10 :: ascii "0\r\n\r\n"))) :=
    .here (by decide) (by decide +kernel) (by decide) (by decide) (by decide) (.inr (by decide)) hlast
  have hchunk : Coded ReadSize Short (ascii "1\r" ++ 10 :: (ascii "a" ++ (ascii "bc\r" ++ 10 :: ascii "0\r\n\r\n")))
      (ascii "a" ++ []) := .chunk (by decide) (by decide +kernel) (by decide) (by decide) (by decide) hlast
  have hpump := pumpChunked_collect r
  rw [hr, show abc.bytes = ascii "1\r" ++ 10 :: (ascii "a" ++ (ascii "bc\r" ++ 10 :: ascii "0\r\n\r\n")) from rfl,
    Source.chunked_coded hchunk] at hpump
  exact ⟨hr, hpump.1, hpump.2, hsloppy.not_decodes hr⟩

end BinderDownload.Http
