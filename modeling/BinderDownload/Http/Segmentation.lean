import BinderDownload.Http.Reply

namespace BinderDownload.Http

open Text

inductive Cuts (idleTimeoutMs : ℤ) : Bytes → List Tick → Prop
  | closed (rest : List Tick) : Cuts idleTimeoutMs [] (⟨false, .closed⟩ :: rest)
  | data {stream : Bytes} {ticks : List Tick} (segment : Segment) (h : Cuts idleTimeoutMs stream ticks) :
      Cuts idleTimeoutMs (segment.bytes ++ stream) (⟨false, .data segment⟩ :: ticks)
  | again {stream : Bytes} {ticks : List Tick} (elapsedMs : ℤ) (he : elapsedMs < idleTimeoutMs)
      (h : Cuts idleTimeoutMs stream ticks) : Cuts idleTimeoutMs stream (⟨false, .again elapsedMs⟩ :: ticks)

theorem Cuts.source {idleTimeoutMs : ℤ} {stream : Bytes} {ticks : List Tick} (polls : Bool)
    (h : Cuts idleTimeoutMs stream ticks) : Source.ofTicks polls idleTimeoutMs ticks = ⟨stream, .closed⟩ := by
  induction h with
  | closed rest => simp [Source.ofTicks]
  | data segment h ih => simp [Source.ofTicks, ih]
  | again elapsedMs he h ih => simp [Source.ofTicks, ih, he]

namespace Source

def Returns (source : Source) : Prop := source.stop ≠ .halted .waiting

theorem lineFrom_returns (line rest : Bytes) {stop : Stop} (hs : stop ≠ .halted .waiting) :
    match lineFrom line rest stop with
    | .error halt => halt ≠ .waiting
    | .ok (_, source) => source.Returns := by
  induction rest generalizing line with
  | nil =>
    cases stop with
    | closed => simp [lineFrom]
    | halted halt => simpa [lineFrom] using hs
  | cons c cs ih =>
    unfold lineFrom
    split_ifs
    · exact hs
    · simp
    · exact ih (line ++ [c])

theorem readLine_error {source : Source} {halt : Halt} (hs : source.Returns)
    (h : source.readLine = .error halt) : halt ≠ .waiting := by
  have hl := lineFrom_returns [] source.data hs
  rw [← readLine, h] at hl
  exact hl

theorem readLine_returns {source source' : Source} {line : Bytes} (hs : source.Returns)
    (h : source.readLine = .ok (line, source')) : source'.Returns := by
  have hl := lineFrom_returns [] source.data hs
  rw [← readLine, h] at hl
  exact hl

theorem plain_returns {source : Source} (want : ℤ) (written : ℕ) (hs : source.Returns) :
    match (source.plain want written).2 with
    | .error halt => halt ≠ .waiting
    | .ok source' => source'.Returns := by
  obtain ⟨data, stop⟩ := source
  simp only [plain]
  split_ifs
  · cases stop with
    | closed => simp [Returns]
    | halted halt => simpa [Returns] using hs
  · exact hs
  · cases stop with
    | closed => simp [closedEarly]
    | halted halt => simpa [Returns] using hs

theorem trailers_returns (source : Source) (hs : source.Returns) : source.trailers = .ok () := by
  fun_induction trailers source with
  | case1 source h => exact absurd rfl (readLine_error hs h)
  | case2 source error message h => rfl
  | case3 source rest h => rfl
  | case4 source line rest h hl ih => exact ih (readLine_returns hs h)

theorem chunked_returns (source : Source) (hs : source.Returns) : source.chunked.2 ≠ .error .waiting := by
  fun_induction chunked source with
  | case1 source halt h => simpa using readLine_error hs h
  | case2 source line rest h header size hbad => simp [malformedChunk]
  | case3 source line rest h header size hbad hz => simp [trailers_returns rest (readLine_returns hs h)]
  | case4 source line rest h header size hbad hz data halt hd =>
    have hp := plain_returns size.1 0 (readLine_returns hs h)
    rw [hd] at hp
    simpa using hp
  | case5 source line rest h header size hbad hz data rest2 hd halt he =>
    have hp := plain_returns size.1 0 (readLine_returns hs h)
    rw [hd] at hp
    simpa using readLine_error hp he
  | case6 source line rest h header size hbad hz data rest2 hd line' rest3 he ih =>
    have hp := plain_returns size.1 0 (readLine_returns hs h)
    rw [hd] at hp
    exact ih (readLine_returns hp he)

theorem readHeaders_returns (source : Source) (headers : Headers) (hs : source.Returns) :
    match source.readHeaders headers with
    | .error halt => halt ≠ .waiting
    | .ok (_, source') => source'.Returns := by
  fun_induction readHeaders source headers with
  | case1 source headers halt h => exact readLine_error hs h
  | case2 source headers rest h => exact readLine_returns hs h
  | case3 source headers line rest h hl hc ih => exact ih (readLine_returns hs h)
  | case4 source headers line rest h hl colon hc hk => simp
  | case5 source headers line rest h hl colon hc hk ih => exact ih (readLine_returns hs h)

theorem body_returns (source : Source) (head : Head) (hs : source.Returns) :
    (source.body head).2 ≠ .error .waiting := by
  unfold body
  split_ifs
  · exact chunked_returns source hs
  · have hp := plain_returns head.contentLength 0 hs
    cases hb : (source.plain head.contentLength 0).2 with
    | error halt =>
      rw [hb] at hp
      simpa [Except.map] using hp
    | ok rest => simp [Except.map]

theorem attempt_isSome (info : ResponseInfo) (bytes : ℕ) (halt : Halt) (h : halt ≠ .waiting) :
    (halt.attempt info bytes).isSome := by
  cases halt with
  | waiting => exact absurd rfl h
  | failed error message => rfl

theorem respond_returns (url : Url) (request : Request) (source : Source) (hs : source.Returns) :
    (source.respond url request).attempt.isSome := by
  unfold respond
  cases hl : source.readLine with
  | error halt => exact attempt_isSome _ _ _ (readLine_error hs hl)
  | ok p =>
    obtain ⟨line, rest1⟩ := p
    have hh := readHeaders_returns rest1 {} (readLine_returns hs hl)
    by_cases hv : (parseStatusLine line).1 = false
    · simp [hv]
    · simp only [hv]
      cases hr : rest1.readHeaders {} with
      | error halt =>
        rw [hr] at hh
        exact attempt_isSome _ _ _ hh
      | ok q =>
        obtain ⟨headers, rest2⟩ := q
        rw [hr] at hh
        cases hi : inspectHead url request
            { statusCode := (parseStatusLine line).2.1, reason := (parseStatusLine line).2.2 } headers with
        | error attempt => simp [hi]
        | ok head =>
          have hb := body_returns rest2 head hh
          cases he : (rest2.body head).2 with
          | error halt =>
            rw [he] at hb
            simp only [hi, he, ending]
            exact attempt_isSome _ _ _ (by simpa using hb)
          | ok u => simp [hi, he, ending]

end Source

structure Record where
  headers : List ResponseInfo := []
  body : List Bytes := []

def recorder (answer : Option (ResponseInfo → Bool)) : Callbacks Record where
  onHeaders := answer.map (fun answer s info => (answer info, { s with headers := s.headers ++ [info] }))
  onBody := fun s piece => (true, { s with body := s.body ++ [piece] })

theorem recorder_headers (answer : ResponseInfo → Bool) (s : Record) (info : ResponseInfo) :
    (recorder (some answer)).headers s info = (answer info, { s with headers := s.headers ++ [info] }) := rfl

theorem feed_recorder (answer : Option (ResponseInfo → Bool)) (s : Record) (pieces : List Bytes) :
    feed (recorder answer).onBody s pieces = ⟨true, pieces, { s with body := s.body ++ pieces }⟩ := by
  induction pieces generalizing s with
  | nil => simp [feed]
  | cons piece pieces ih =>
    rw [feed]
    simp only [recorder] at ih ⊢
    rw [ih]
    simp

theorem Reply.deliver_recorder (reply : Reply) (answer : Option (ResponseInfo → Bool)) (ps qs : List Bytes)
    (h : ps.flatten = qs.flatten) (s : Record) :
    (reply.deliver ps (recorder answer) s).1 = (reply.deliver qs (recorder answer) s).1 ∧
      (reply.deliver ps (recorder answer) s).2.headers = (reply.deliver qs (recorder answer) s).2.headers ∧
      (reply.deliver ps (recorder answer) s).2.body.flatten =
        (reply.deliver qs (recorder answer) s).2.body.flatten := by
  unfold deliver
  cases reply.announced with
  | none => exact ⟨rfl, rfl, rfl⟩
  | some info =>
    dsimp only
    rcases (recorder answer).headers s info with ⟨_ | _, t⟩
    · exact ⟨rfl, rfl, rfl⟩
    · simp [feed_recorder, h]

def observe (url : Url) (request : Request) (answer : Option (ResponseInfo → Bool)) (polls : Bool)
    (sends : List Send) (ticks : List Tick) : Option Attempt × Record :=
  performOnce url request (recorder answer) polls (.connected ⟨sends, ticks⟩) {}

theorem observe_reply {url : Url} {request : Request} (answer : Option (ResponseInfo → Bool)) {polls : Bool}
    {sends : List Send} {ticks ticks' : List Tick}
    (hsame : Opened.reply url request polls (.connected ⟨sends, ticks⟩) =
      Opened.reply url request polls (.connected ⟨sends, ticks'⟩)) :
    (observe url request answer polls sends ticks).1 = (observe url request answer polls sends ticks').1 ∧
      (observe url request answer polls sends ticks).2.headers =
        (observe url request answer polls sends ticks').2.headers ∧
      (observe url request answer polls sends ticks).2.body.flatten =
        (observe url request answer polls sends ticks').2.body.flatten := by
  obtain ⟨ps, -, hps, hp⟩ := performOnce_deliver url request polls (.connected ⟨sends, ticks⟩)
  obtain ⟨qs, -, hqs, hq⟩ := performOnce_deliver url request polls (.connected ⟨sends, ticks'⟩)
  rw [hsame] at hps hp
  simp only [observe, hp (recorder answer), hq (recorder answer)]
  exact Reply.deliver_recorder (Opened.reply url request polls (.connected ⟨sends, ticks'⟩))
    answer ps qs (hps.trans hqs.symm) {}

theorem observe_returns {url : Url} {request : Request} (answer : Option (ResponseInfo → Bool)) (polls : Bool)
    {sends : List Send} {stream : Bytes} {ticks : List Tick} (h : Cuts request.idleTimeoutMs stream ticks)
    (hsend : sendAll (requestHead url request).length sends = .ok ()) :
    (observe url request answer polls sends ticks).1.isSome := by
  obtain ⟨ps, -, -, hp⟩ := performOnce_deliver url request polls (.connected ⟨sends, ticks⟩)
  have hret := Source.respond_returns url request ⟨stream, .closed⟩ (by simp [Source.Returns])
  simp only [observe, hp (recorder answer), Reply.deliver, Opened.reply, hsend, h.source]
  cases (Source.respond url request ⟨stream, .closed⟩).announced with
  | none => exact hret
  | some info =>
    dsimp only
    rcases (recorder answer).headers {} info with ⟨_ | _, t⟩
    · rfl
    · simpa [feed_recorder] using hret

theorem performOnce_segmentation (url : Url) (request : Request) (answer : Option (ResponseInfo → Bool))
    (polls : Bool) (sends : List Send) (stream : Bytes) (ticks ticks' : List Tick)
    (h : Cuts request.idleTimeoutMs stream ticks) (h' : Cuts request.idleTimeoutMs stream ticks') :
    (observe url request answer polls sends ticks).1 = (observe url request answer polls sends ticks').1 ∧
      (observe url request answer polls sends ticks).2.headers =
        (observe url request answer polls sends ticks').2.headers ∧
      (observe url request answer polls sends ticks).2.body.flatten =
        (observe url request answer polls sends ticks').2.body.flatten ∧
      (sendAll (requestHead url request).length sends = .ok () →
        (observe url request answer polls sends ticks).1.isSome) := by
  have hsame : Opened.reply url request polls (.connected ⟨sends, ticks⟩) =
      Opened.reply url request polls (.connected ⟨sends, ticks'⟩) := by
    simp only [Opened.reply, h.source, h'.source]
  obtain ⟨h1, h2, h3⟩ := observe_reply answer hsame
  exact ⟨h1, h2, h3, observe_returns answer polls h⟩

theorem performOnce_segmentation_two_cuts :
    let a : Segment := ⟨ascii "HTTP/1.1 200 OK", by decide, by decide⟩
    let b : Segment := ⟨[13, 10, 13], by decide, by decide⟩
    let c : Segment := ⟨10 :: ascii "hi", by decide, by decide⟩
    let abc : Segment := ⟨a.bytes ++ (b.bytes ++ c.bytes), by decide, by decide⟩
    let url : Url := ⟨ascii "http", ascii "h", ascii "80", ascii "/"⟩
    let run := fun ticks => observe url { url := [] } none true [.wrote 4096] ticks
    let cuts := [⟨false, .data a⟩, ⟨false, .again 250⟩, ⟨false, .data b⟩, ⟨false, .data c⟩, ⟨false, .closed⟩]
    (run cuts).1 = (run [⟨false, .data abc⟩, ⟨false, .closed⟩]).1 ∧ (run cuts).1.isSome := by
  intro a b c abc url run cuts
  have h : Cuts 30000 (a.bytes ++ (b.bytes ++ (c.bytes ++ []))) _ :=
    .data a (.again 250 (by decide) (.data b (.data c (.closed []))))
  have h' : Cuts 30000 (abc.bytes ++ []) _ := .data abc (.closed [])
  obtain ⟨h1, -, -, h4⟩ := performOnce_segmentation url { url := [] } none true [.wrote 4096] _ _ _ h h'
  exact ⟨h1, h4 (by decide +kernel)⟩

end BinderDownload.Http
