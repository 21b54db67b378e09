import BinderDownload.Http.Length

namespace BinderDownload.Http

open Text

variable {σ : Type}

def Reply.HasStatus (reply : Reply) (code : ℤ) : Prop :=
  (∀ attempt ∈ reply.attempt, attempt.result.response.statusCode = code) ∧
    ∀ info ∈ reply.announced, info.statusCode = code

theorem Halt.attempt_code {halt : Halt} {info : ResponseInfo} {bytes : ℕ} {attempt : Attempt}
    (h : halt.attempt info bytes = some attempt) : attempt.result.response = info := by
  cases halt with
  | waiting => cases h
  | failed error message =>
    cases h
    rfl

theorem inspectHead_code {url : Url} {request : Request} {info : ResponseInfo} {headers : Headers} :
    match inspectHead url request info headers with
    | .error attempt => attempt.result.response.statusCode = info.statusCode
    | .ok head => head.info.statusCode = info.statusCode := by
  unfold inspectHead
  dsimp only
  split_ifs <;> rfl

namespace Source

variable {source rest : Source} {line : Bytes}

theorem proceed_code {result : Except Attempt Head} {code : ℤ} (rest : Source)
    (herror : ∀ attempt, result = .error attempt → attempt.result.response.statusCode = code)
    (hok : ∀ head, result = .ok head → head.info.statusCode = code) : (rest.proceed result).HasStatus code := by
  cases result with
  | error attempt =>
    refine ⟨fun a ha => ?_, fun info hinfo => by cases hinfo⟩
    cases ha
    exact herror attempt rfl
  | ok head =>
    refine ⟨fun a ha => ?_, fun info hinfo => ?_⟩
    · have hresponse : a.result.response = head.info := by
        simp only [proceed, Option.mem_def] at ha
        cases hb : (rest.body head).2 with
        | error halt =>
          rw [hb] at ha
          exact Halt.attempt_code ha
        | ok u =>
          rw [hb] at ha
          cases ha
          rfl
      rw [hresponse]
      exact hok head rfl
    · cases hinfo
      exact hok head rfl

theorem respond_code (url : Url) (request : Request) (h : source.readLine = .ok (line, rest)) :
    (source.respond url request).HasStatus (parseStatusLine line).2.1 := by
  by_cases hvalid : (parseStatusLine line).1 = true
  · cases hh : rest.readHeaders {} with
    | error halt =>
      simp only [respond, h, hvalid, hh, Bool.true_eq_false, if_false]
      refine ⟨fun a ha => ?_, fun info hinfo => by cases hinfo⟩
      rw [Halt.attempt_code ha]
    | ok p =>
      obtain ⟨headers, rest2⟩ := p
      rw [respond_proceed url request h hvalid hh]
      have hcode := @inspectHead_code url request
        { statusCode := (parseStatusLine line).2.1, reason := (parseStatusLine line).2.2 } headers
      apply proceed_code
      · intro attempt hi
        rw [hi] at hcode
        exact hcode
      · intro head hi
        rw [hi] at hcode
        exact hcode
  · have hinvalid : (parseStatusLine line).1 = false := by simpa using hvalid
    simp only [respond, h, hinvalid, if_true]
    refine ⟨fun a ha => ?_, fun info hinfo => by cases hinfo⟩
    cases ha
    rfl

theorem respond_unread (url : Url) (request : Request) {halt : Halt} (h : source.readLine = .error halt) :
    (source.respond url request).HasStatus 0 := by
  simp only [respond, h]
  refine ⟨fun a ha => ?_, fun info hinfo => by cases hinfo⟩
  rw [Halt.attempt_code ha]

end Source

theorem Reply.HasStatus.deliver {reply : Reply} {code : ℤ} (h : reply.HasStatus code) (pieces : List Bytes)
    (calls : Callbacks σ) (s : σ) {attempt : Attempt} (ha : (reply.deliver pieces calls s).1 = some attempt) :
    attempt.result.response.statusCode = code := by
  unfold Reply.deliver at ha
  cases hannounced : reply.announced with
  | none =>
    rw [hannounced] at ha
    exact h.1 attempt ha
  | some info =>
    rw [hannounced] at ha
    dsimp only at ha
    rcases hc : calls.headers s info with ⟨_ | _, t⟩
    · rw [hc] at ha
      cases ha
      exact h.2 info hannounced
    · rw [hc] at ha
      dsimp only at ha
      split_ifs at ha
      · exact h.1 attempt ha
      · cases ha
        exact h.2 info hannounced

structure Interim where
  status : Line
  headers : List Line
  eol : Eol
  code : 100 ≤ (parseStatusLine status.text).2.1 ∧ (parseStatusLine status.text).2.1 < 200
  written : ∀ line ∈ headers, line.text ≠ []

def Interim.render (interim : Interim) : Bytes :=
  interim.status.render ++ (interim.headers.flatMap Line.render ++ interim.eol.bytes)

def Final (stream : Bytes) : Prop :=
  ∀ line rest, Source.readLine ⟨stream, .closed⟩ = .ok (line, rest) →
    ¬(100 ≤ (parseStatusLine line).2.1 ∧ (parseStatusLine line).2.1 < 200)

theorem Interim.status_first (interim : Interim) (rest : Bytes) (stop : Stop) :
    ∃ rest', Source.readLine ⟨interim.render ++ rest, stop⟩ = .ok (interim.status.text, rest') := by
  refine ⟨⟨interim.headers.flatMap Line.render ++ interim.eol.bytes ++ rest, stop⟩, ?_⟩
  rw [render, List.append_assoc]
  exact Source.readLine_line interim.status _ stop

theorem Final.status {stream : Bytes} (h : Final stream) (url : Url) (request : Request) :
    ∃ code, ¬(100 ≤ code ∧ code < 200) ∧ (Source.respond url request ⟨stream, .closed⟩).HasStatus code := by
  cases hl : Source.readLine ⟨stream, .closed⟩ with
  | error halt => exact ⟨0, by omega, Source.respond_unread url request hl⟩
  | ok p => exact ⟨_, h p.1 p.2 hl, Source.respond_code url request hl⟩

theorem observe_status {url : Url} {request : Request} (answer : Option (ResponseInfo → Bool)) (polls : Bool)
    {sends : List Send} {stream : Bytes} {ticks : List Tick}
    (hsent : sendAll (requestHead url request).length sends = .ok ())
    (hcuts : Cuts request.idleTimeoutMs stream ticks) {code : ℤ}
    (h : (Source.respond url request ⟨stream, .closed⟩).HasStatus code) :
    ∃ attempt, (observe url request answer polls sends ticks).1 = some attempt ∧
      attempt.result.response.statusCode = code := by
  obtain ⟨attempt, hattempt⟩ := Option.isSome_iff_exists.mp (observe_returns answer polls hcuts hsent)
  refine ⟨attempt, hattempt, ?_⟩
  obtain ⟨pieces, -, -, hp⟩ := performOnce_deliver url request polls (.connected ⟨sends, ticks⟩)
  have hreply : Opened.reply url request polls (.connected ⟨sends, ticks⟩) =
      Source.respond url request ⟨stream, .closed⟩ := by
    simp only [Opened.reply, hsent, hcuts.source polls]
  have hdeliver : (observe url request answer polls sends ticks).1 =
      ((Source.respond url request ⟨stream, .closed⟩).deliver pieces (recorder answer) {}).1 := by
    rw [observe, hp (recorder answer), hreply]
  exact h.deliver pieces (recorder answer) {} (hdeliver.symm.trans hattempt)

theorem performOnce_interim (url : Url) (request : Request) (answer : Option (ResponseInfo → Bool)) (polls : Bool)
    (sends : List Send) (interims : List Interim) (final : Bytes) (ticks ticks' : List Tick) (hfinal : Final final)
    (h : Cuts request.idleTimeoutMs (interims.flatMap Interim.render ++ final) ticks)
    (h' : Cuts request.idleTimeoutMs final ticks') :
    ((observe url request answer polls sends ticks).1 = (observe url request answer polls sends ticks').1 ∧
      (observe url request answer polls sends ticks).2.headers =
        (observe url request answer polls sends ticks').2.headers ∧
      (observe url request answer polls sends ticks).2.body.flatten =
        (observe url request answer polls sends ticks').2.body.flatten) ↔
      interims = [] ∨ sendAll (requestHead url request).length sends ≠ .ok () := by
  constructor
  · rintro ⟨hsame, -⟩
    by_contra hnot
    obtain ⟨hsome, hsent⟩ := not_or.mp hnot
    obtain ⟨interim, interims, rfl⟩ := List.exists_cons_of_ne_nil hsome
    rw [List.flatMap_cons, List.append_assoc] at h
    obtain ⟨rest, hline⟩ := interim.status_first (interims.flatMap Interim.render ++ final) .closed
    obtain ⟨attempt, hattempt, hcode⟩ :=
      observe_status answer polls (not_not.mp hsent) h (Source.respond_code url request hline)
    obtain ⟨code, hrange, hstatus⟩ := hfinal.status url request
    obtain ⟨attempt', hattempt', hcode'⟩ := observe_status answer polls (not_not.mp hsent) h' hstatus
    rw [hattempt, hattempt'] at hsame
    cases hsame
    rw [← hcode', hcode] at hrange
    exact hrange interim.code
  · intro hcases
    apply observe_reply
    rcases hcases with rfl | hsent
    · rw [List.flatMap_nil, List.nil_append] at h
      simp only [Opened.reply, h.source, h'.source]
    · cases hs : sendAll (requestHead url request).length sends with
      | ok u => exact absurd hs hsent
      | error halt => cases halt <;> simp only [Opened.reply, hs]

def continue100 : Interim where
  status := ⟨ascii "HTTP/1.1 100 Continue", .crlf, by decide, by decide, by decide⟩
  headers := []
  eol := .crlf
  code := by decide +kernel
  written := by simp

theorem performOnce_interim_continue :
    let final : Segment := ⟨ascii "HTTP/1.1 200 OK\r\n\r\nhi", by decide, by decide⟩
    let interim : Segment := ⟨continue100.render, by decide +kernel, by decide +kernel⟩
    let url : Url := ⟨ascii "http", ascii "h", ascii "80", ascii "/"⟩
    let run := fun ticks => observe url { url := [] } none true [.wrote 4096] ticks
    let alone := run [⟨false, .data final⟩, ⟨false, .closed⟩]
    let whole := run [⟨false, .data interim⟩, ⟨false, .data final⟩, ⟨false, .closed⟩]
    ¬(whole.1 = alone.1 ∧ whole.2.headers = alone.2.headers ∧ whole.2.body.flatten = alone.2.body.flatten) := by
  intro final interim url run alone whole hsame
  have hfinal : Final (final.bytes ++ []) := by
    intro line rest h
    have hline : line = ascii "HTTP/1.1 200 OK" := by
      have heq : Source.readLine ⟨final.bytes ++ [], .closed⟩ =
          .ok (ascii "HTTP/1.1 200 OK", ⟨ascii "\r\nhi", .closed⟩) := by decide +kernel
      rw [heq] at h
      cases h
      rfl
    rw [hline]
    decide +kernel
  have h : Cuts 30000 ([continue100].flatMap Interim.render ++ (final.bytes ++ []))
      [⟨false, .data interim⟩, ⟨false, .data final⟩, ⟨false, .closed⟩] :=
    .data interim (.data final (.closed []))
  have h' : Cuts 30000 (final.bytes ++ []) [⟨false, .data final⟩, ⟨false, .closed⟩] :=
    .data final (.closed [])
  have hiff := performOnce_interim url { url := [] } none true [.wrote 4096] [continue100] _ _ _ hfinal h h'
  simp only [alone, whole, run] at hsame
  rcases hiff.mp hsame with hnone | hfailed
  · cases hnone
  · exact hfailed (by decide +kernel)

theorem performOnce_interim_as_body :
    let final : Segment := ⟨ascii "HTTP/1.1 200 OK\r\n\r\nhi", by decide, by decide⟩
    let interim : Segment := ⟨continue100.render, by decide +kernel, by decide +kernel⟩
    let url : Url := ⟨ascii "http", ascii "h", ascii "80", ascii "/"⟩
    let answer : Option (ResponseInfo → Bool) := some (fun _ => true)
    let run := fun ticks => (observe url { url := [] } answer true [.wrote 4096] ticks).2
    let alone := run [⟨false, .data final⟩, ⟨false, .closed⟩]
    let whole := run [⟨false, .data interim⟩, ⟨false, .data final⟩, ⟨false, .closed⟩]
    (alone.headers.map ResponseInfo.statusCode = [200] ∧ alone.body.flatten = ascii "hi") ∧
      (whole.headers.map ResponseInfo.statusCode = [100] ∧ whole.body.flatten = final.bytes) := by
  decide +kernel

end BinderDownload.Http
