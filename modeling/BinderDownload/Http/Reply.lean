import BinderDownload.Http.Exchange

/-!
The meaning of a response stream, independent of how it is cut into `recv` results and of what the
callbacks do: the information it announces, the body it frames, and how the exchange ends when the
callbacks accept everything.
-/

namespace BinderDownload.Http

open Text

variable {σ : Type}

structure Reply where
  attempt : Option Attempt
  announced : Option ResponseInfo
  body : Bytes
  deriving DecidableEq

namespace Source

def readHeaders (source : Source) (headers : Headers) : Except Halt (Headers × Source) :=
  match _h : source.readLine with
  | .error halt => .error halt
  | .ok (line, rest) =>
    if line = [] then .ok (headers, rest)
    else match find 58 line with
      | none => readHeaders rest headers
      | some colon =>
        if kMaxHeaderCount ≤ headers.size then .error (.failed .tooLarge (ascii "too many response headers"))
        else readHeaders rest (headers.add (trim (line.take colon)) (trim (line.drop (colon + 1))))
termination_by source.data.length
decreasing_by all_goals exact readLine_length _h

def body (source : Source) (head : Head) : Bytes × Except Halt Unit :=
  if head.chunked then source.chunked
  else ((source.plain head.contentLength 0).1, (source.plain head.contentLength 0).2.map (fun _ => ()))

def ending (info : ResponseInfo) (bytes : ℕ) : Except Halt Unit → Option Attempt
  | .ok () => some { result := { response := info, bytes } }
  | .error halt => halt.attempt info bytes

def respond (url : Url) (request : Request) (source : Source) : Reply :=
  match source.readLine with
  | .error halt => ⟨halt.attempt {} 0, none, []⟩
  | .ok (line, rest1) =>
    let (valid, statusCode, reason) := parseStatusLine line
    let info : ResponseInfo := { statusCode, reason }
    if valid = false then ⟨some (notHttp line info), none, []⟩
    else match rest1.readHeaders {} with
      | .error halt => ⟨halt.attempt info 0, none, []⟩
      | .ok (headers, rest2) =>
        match inspectHead url request info headers with
        | .error attempt => ⟨some attempt, none, []⟩
        | .ok head =>
          ⟨ending head.info (rest2.body head).1.length (rest2.body head).2, some head.info, (rest2.body head).1⟩

def proceed (rest : Source) : Except Attempt Head → Reply
  | .error attempt => ⟨some attempt, none, []⟩
  | .ok head => ⟨ending head.info (rest.body head).1.length (rest.body head).2, some head.info, (rest.body head).1⟩

theorem respond_proceed (url : Url) (request : Request) {source rest1 rest2 : Source} {line : Bytes}
    {headers : Headers} (hline : source.readLine = .ok (line, rest1)) (hvalid : (parseStatusLine line).1 = true)
    (hheaders : rest1.readHeaders {} = .ok (headers, rest2)) :
    source.respond url request =
      rest2.proceed (inspectHead url request { statusCode := (parseStatusLine line).2.1
                                               reason := (parseStatusLine line).2.2 } headers) := by
  simp only [respond, hline, hvalid, hheaders, Bool.true_eq_false, if_false]
  cases inspectHead url request { statusCode := (parseStatusLine line).2.1
                                  reason := (parseStatusLine line).2.2 } headers with
  | error attempt => rfl
  | ok head => rfl

end Source

def rejectedBySink (info : ResponseInfo) (bytes : ℕ) : Attempt :=
  { result :=
    { error := .write, message := ascii "sink rejected the response body", response := info, bytes } }

def Reply.deliver (reply : Reply) (pieces : List Bytes) (calls : Callbacks σ) (s : σ) : Option Attempt × σ :=
  match reply.announced with
  | none => (reply.attempt, s)
  | some info =>
    match calls.headers s info with
    | (false, s) => (some (refusedByCaller info), s)
    | (true, s) =>
      (if (feed calls.onBody s pieces).done then reply.attempt
        else some (rejectedBySink info (feed calls.onBody s pieces).taken.flatten.length),
        (feed calls.onBody s pieces).state)

section Deliver

variable {reply : Reply} {info : ResponseInfo} {calls : Callbacks σ} {s t : σ}

theorem Reply.deliver_refused (pieces : List Bytes) (ha : reply.announced = some info)
    (hc : calls.headers s info = (false, t)) : reply.deliver pieces calls s = (some (refusedByCaller info), t) := by
  simp only [deliver, ha, hc]

theorem Reply.deliver_accepted (pieces : List Bytes) (ha : reply.announced = some info)
    (hc : calls.headers s info = (true, t)) :
    reply.deliver pieces calls s =
      (if (feed calls.onBody t pieces).done then reply.attempt
        else some (rejectedBySink info (feed calls.onBody t pieces).taken.flatten.length),
        (feed calls.onBody t pieces).state) := by
  simp only [deliver, ha, hc]

end Deliver

theorem readHeaders_source (r : Reader) (headers : Headers) :
    (readHeaders r headers).map (Prod.map id Reader.source) = r.source.readHeaders headers := by
  fun_induction readHeaders r headers with
  | case1 r headers halt h =>
    rw [Source.readHeaders]
    split <;> rename_i h' <;> rw [Reader.readLine_error h] at h' <;> cases h'
    rfl
  | case2 r headers r' h =>
    rw [Source.readHeaders]
    split <;> rename_i h' <;> rw [Reader.readLine_ok h] at h' <;> cases h'
    rfl
  | case3 r headers line r' h hl hc ih =>
    rw [Source.readHeaders]
    split <;> rename_i h' <;> rw [Reader.readLine_ok h] at h' <;> cases h'
    simp only [hl, if_false, hc]
    exact ih
  | case4 r headers line r' h hl colon hc hk =>
    rw [Source.readHeaders]
    split <;> rename_i h' <;> rw [Reader.readLine_ok h] at h' <;> cases h'
    simp only [hl, if_false, hc, hk, if_true]
    rfl
  | case5 r headers line r' h hl colon hc hk ih =>
    rw [Source.readHeaders]
    split <;> rename_i h' <;> rw [Reader.readLine_ok h] at h' <;> cases h'
    simp only [hl, if_false, hc, hk]
    exact ih

theorem conclude_delivery {ρ : Type} (info : ResponseInfo) (pieces : List Bytes) (outcome : Except Halt ρ)
    (f : BodyFn σ) (s : σ) :
    conclude info (delivery pieces outcome 0 f s) =
      (if (feed f s pieces).done then Source.ending info pieces.flatten.length (outcome.map (fun _ => ()))
        else some (rejectedBySink info (feed f s pieces).taken.flatten.length), (feed f s pieces).state) := by
  unfold conclude delivery
  by_cases hd : (feed f s pieces).done
  · rw [feed_done f s pieces hd]
    cases outcome <;> simp [hd, Source.ending, Except.map]
  · simp [hd, Halt.attempt, sinkRejected, rejectedBySink]

theorem body_delivery (r : Reader) (head : Head) :
    ∃ pieces, (∀ p ∈ pieces, Piece p) ∧ pieces.flatten = (r.source.body head).1 ∧
      ∀ {σ : Type} (f : BodyFn σ) (s : σ),
        (if head.chunked then conclude head.info (pumpChunked r f s 0)
          else conclude head.info (pumpPlain r head.contentLength f s 0)) =
        (if (feed f s pieces).done then
            Source.ending head.info (r.source.body head).1.length (r.source.body head).2
          else some (rejectedBySink head.info (feed f s pieces).taken.flatten.length),
          (feed f s pieces).state) := by
  by_cases hc : head.chunked
  · obtain ⟨pieces, hne, hflat, hp⟩ := pumpChunked_delivery r
    have hbody : r.source.body head = r.source.chunked := if_pos hc
    have hunit : r.source.chunked.2.map (fun _ => ()) = r.source.chunked.2 := by
      cases r.source.chunked.2 <;> rfl
    refine ⟨pieces, hne, by rw [hbody, hflat], fun f s => ?_⟩
    rw [if_pos hc, hp f s 0, conclude_delivery, hflat, hbody, hunit]
  · obtain ⟨pieces, outcome, hne, hflat, hout, hp⟩ := pumpPlain_delivery r head.contentLength 0
    have hbody : r.source.body head = ((r.source.plain head.contentLength 0).1,
        (r.source.plain head.contentLength 0).2.map (fun _ => ())) := if_neg hc
    have hunit : (outcome.map Reader.source).map (fun _ => ()) = outcome.map (fun _ => ()) := by
      cases outcome <;> rfl
    refine ⟨pieces, hne, by rw [hbody, hflat], fun f s => ?_⟩
    rw [if_neg hc, hp f s, conclude_delivery, hflat, hbody, ← hout, hunit]

theorem exchange_deliver (url : Url) (request : Request) (r : Reader) :
    ∃ pieces, (∀ p ∈ pieces, Piece p) ∧ pieces.flatten = (r.source.respond url request).body ∧
      ∀ {σ : Type} (calls : Callbacks σ) (s : σ),
        exchange url request calls r s = (r.source.respond url request).deliver pieces calls s := by
  cases hr : r.readLine with
  | error halt =>
    have hs := Reader.readLine_error hr
    refine ⟨[], by simp, by simp [Source.respond, hs], fun calls s => ?_⟩
    simp [exchange, Source.respond, hr, hs, Reply.deliver]
  | ok p =>
    obtain ⟨line, r1⟩ := p
    have hs := Reader.readLine_ok hr
    by_cases hv : (parseStatusLine line).1 = false
    · refine ⟨[], by simp, by simp [Source.respond, hs, hv], fun calls s => ?_⟩
      simp [exchange, Source.respond, hr, hs, hv, Reply.deliver]
    · have hh := readHeaders_source r1 {}
      cases hr2 : readHeaders r1 {} with
      | error halt =>
        rw [hr2] at hh
        change Except.error halt = _ at hh
        refine ⟨[], by simp, by simp [Source.respond, hs, hv, ← hh], fun calls s => ?_⟩
        simp [exchange, Source.respond, hr, hs, hv, hr2, ← hh, Reply.deliver]
      | ok q =>
        obtain ⟨headers, r2⟩ := q
        rw [hr2] at hh
        change Except.ok (headers, r2.source) = _ at hh
        cases hi : inspectHead url request
            { statusCode := (parseStatusLine line).2.1, reason := (parseStatusLine line).2.2 } headers with
        | error attempt =>
          refine ⟨[], by simp, by simp [Source.respond, hs, hv, ← hh, hi], fun calls s => ?_⟩
          simp [exchange, Source.respond, hr, hs, hv, hr2, ← hh, hi, Reply.deliver]
        | ok head =>
          obtain ⟨pieces, hne, hflat, hp⟩ := body_delivery r2 head
          refine ⟨pieces, hne, by simp [Source.respond, hs, hv, ← hh, hi, hflat], fun calls s => ?_⟩
          simp only [exchange, Source.respond, hr, hs, hv, hr2, ← hh, hi, Reply.deliver, Bool.true_eq_false, if_false]
          rcases calls.headers s head.info with ⟨_ | _, t⟩
          · rfl
          · exact hp calls.onBody t

def Opened.reply (url : Url) (request : Request) (polls : Bool) : Opened → Reply
  | .refused error message _ => ⟨some { result := { error, message } }, none, []⟩
  | .connected conn =>
    match sendAll (requestHead url request).length conn.sends with
    | .error .waiting => ⟨none, none, []⟩
    | .error (.failed _ error) =>
      ⟨some { result := { error := .io, message := ascii "sending request failed: " ++ error } }, none, []⟩
    | .ok () => (Source.ofTicks polls request.idleTimeoutMs conn.ticks).respond url request

theorem Opened.reply_sent {url : Url} {request : Request} {conn : Conn} (polls : Bool)
    (hsent : sendAll (requestHead url request).length conn.sends = .ok ()) :
    (Opened.connected conn).reply url request polls =
      (Source.ofTicks polls request.idleTimeoutMs conn.ticks).respond url request := by
  simp only [reply, hsent]

theorem Reader.new_source (ticks : List Tick) (polls : Bool) (idleTimeoutMs : ℤ) :
    (Reader.new ticks polls idleTimeoutMs).source = Source.ofTicks polls idleTimeoutMs ticks :=
  Reader.source_empty _ rfl

theorem performOnce_deliver (url : Url) (request : Request) (polls : Bool) (opened : Opened) :
    ∃ pieces, (∀ p ∈ pieces, Piece p) ∧ pieces.flatten = (opened.reply url request polls).body ∧
      ∀ {σ : Type} (calls : Callbacks σ) (s : σ), performOnce url request calls polls opened s =
        (opened.reply url request polls).deliver pieces calls s := by
  cases opened with
  | refused error message failed => exact ⟨[], by simp, rfl, fun calls s => rfl⟩
  | connected conn =>
    cases hs : sendAll (requestHead url request).length conn.sends with
    | error halt =>
      cases halt with
      | waiting =>
        refine ⟨[], by simp, by simp [Opened.reply, hs], fun calls s => ?_⟩
        simp [performOnce, Opened.reply, hs, Reply.deliver]
      | failed error message =>
        refine ⟨[], by simp, by simp [Opened.reply, hs], fun calls s => ?_⟩
        simp [performOnce, Opened.reply, hs, Reply.deliver]
    | ok u =>
      have h := exchange_deliver url request (Reader.new conn.ticks polls request.idleTimeoutMs)
      rw [Reader.new_source] at h
      simpa only [performOnce, Opened.reply, hs] using h

end BinderDownload.Http
