import BinderDownload.Http.Get
import BinderDownload.Http.RoundTrip

/-!
A response that is cut off. What the client makes of the first bytes of a stream agrees with what it
makes of the whole stream, as far as it gets.
-/

namespace BinderDownload.Http

open Text

def Halt.Fault : Halt → Prop
  | .waiting => True
  | .failed error _ => error ≠ .ok

def Stop.Fault : Stop → Prop
  | .closed => True
  | .halted halt => halt.Fault

theorem Source.ofTicks_fault (polls : Bool) (idleTimeoutMs : ℤ) (ticks : List Tick) :
    (Source.ofTicks polls idleTimeoutMs ticks).stop.Fault := by
  induction ticks with
  | nil => trivial
  | cons t ts ih =>
    unfold ofTicks
    split_ifs
    · exact Error.noConfusion
    · cases t.recv with
      | data segment => exact ih
      | closed => trivial
      | again elapsedMs =>
        dsimp only
        split_ifs
        · exact Error.noConfusion
        · exact ih
      | broken error => exact Error.noConfusion

namespace Source

theorem lineFrom_cut (line data tail : Bytes) {stop : Stop} (stop' : Stop) (hs : stop.Fault) :
    match lineFrom line data stop with
    | .error halt => halt.Fault
    | .ok (l, rest) => rest.stop = stop ∧ lineFrom line (data ++ tail) stop' = .ok (l, ⟨rest.data ++ tail, stop'⟩) := by
  induction data generalizing line with
  | nil =>
    cases stop with
    | closed => exact Error.noConfusion
    | halted halt => exact hs
  | cons c cs ih =>
    rw [List.cons_append, lineFrom, lineFrom]
    split_ifs
    · exact ⟨rfl, rfl⟩
    · exact Error.noConfusion
    · exact ih (line ++ [c])

theorem readLine_fault {source : Source} {halt : Halt} (hs : source.stop.Fault)
    (h : source.readLine = .error halt) : halt.Fault := by
  have hl := lineFrom_cut [] source.data [] .closed hs
  rw [← readLine, h] at hl
  exact hl

theorem readLine_cut {source rest : Source} {line : Bytes} (tail : Bytes) (stop' : Stop) (hs : source.stop.Fault)
    (h : source.readLine = .ok (line, rest)) :
    rest.stop.Fault ∧ readLine ⟨source.data ++ tail, stop'⟩ = .ok (line, ⟨rest.data ++ tail, stop'⟩) := by
  have hl := lineFrom_cut [] source.data tail stop' hs
  rw [← readLine, h] at hl
  exact ⟨hl.1 ▸ hs, hl.2⟩

theorem readHeaders_cut (source : Source) (headers : Headers) (tail : Bytes) (stop' : Stop)
    (hs : source.stop.Fault) :
    match source.readHeaders headers with
    | .error halt => halt.Fault
    | .ok (headers', rest) => rest.stop.Fault ∧
        readHeaders ⟨source.data ++ tail, stop'⟩ headers = .ok (headers', ⟨rest.data ++ tail, stop'⟩) := by
  fun_induction readHeaders source headers with
  | case1 source headers halt h => exact readLine_fault hs h
  | case2 source headers rest h =>
    obtain ⟨hr, hfull⟩ := readLine_cut tail stop' hs h
    refine ⟨hr, ?_⟩
    rw [readHeaders]
    split <;> rename_i h' <;> rw [hfull] at h' <;> cases h'
    rfl
  | case3 source headers line rest h hl hc ih =>
    obtain ⟨hr, hfull⟩ := readLine_cut tail stop' hs h
    have hstep : readHeaders ⟨source.data ++ tail, stop'⟩ headers = readHeaders ⟨rest.data ++ tail, stop'⟩ headers := by
      rw [readHeaders]
      split <;> rename_i h' <;> rw [hfull] at h' <;> cases h'
      simp only [hl, if_false, hc]
    rw [hstep]
    exact ih hr
  | case4 source headers line rest h hl colon hc hk => exact Error.noConfusion
  | case5 source headers line rest h hl colon hc hk ih =>
    obtain ⟨hr, hfull⟩ := readLine_cut tail stop' hs h
    have hstep : readHeaders ⟨source.data ++ tail, stop'⟩ headers = readHeaders ⟨rest.data ++ tail, stop'⟩
        (headers.add (trim (line.take colon)) (trim (line.drop (colon + 1)))) := by
      rw [readHeaders]
      split <;> rename_i h' <;> rw [hfull] at h' <;> cases h'
      simp only [hl, if_false, hc, hk]
    rw [hstep]
    exact ih hr

theorem plain_cut (source : Source) (want : ℤ) (tail : Bytes) (stop' : Stop) (hs : source.stop.Fault)
    (hw : 0 ≤ want) :
    match (source.plain want 0).2 with
    | .error halt => halt.Fault ∧ (source.plain want 0).1 <+: (plain ⟨source.data ++ tail, stop'⟩ want 0).1
    | .ok rest => rest.stop.Fault ∧
        plain ⟨source.data ++ tail, stop'⟩ want 0 = ((source.plain want 0).1, .ok ⟨rest.data ++ tail, stop'⟩) := by
  obtain ⟨data, stop⟩ := source
  by_cases hle : want.toNat ≤ data.length
  · have hle' : want.toNat ≤ (data ++ tail).length := by
      rw [List.length_append]
      omega
    simp only [plain, if_neg (Int.not_lt.mpr hw), Nat.cast_zero, sub_zero, hle, hle', if_true]
    exact ⟨hs, by rw [List.take_append_of_le_length hle, List.drop_append_of_le_length hle]⟩
  · have hdata : data <+: (plain ⟨data ++ tail, stop'⟩ want 0).1 := by
      simp only [plain, if_neg (Int.not_lt.mpr hw), Nat.cast_zero, sub_zero]
      split_ifs
      · rw [List.take_append, List.take_of_length_le (by omega)]
        exact List.prefix_append _ _
      · exact List.prefix_append _ _
    cases stop with
    | closed =>
      have hcut : plain ⟨data, .closed⟩ want 0 = (data, .error (closedEarly (want.toNat - data.length))) := by
        simp only [plain, if_neg (Int.not_lt.mpr hw), Nat.cast_zero, sub_zero, hle, if_false]
      rw [hcut]
      exact ⟨Error.noConfusion, hdata⟩
    | halted halt =>
      have hcut : plain ⟨data, .halted halt⟩ want 0 = (data, .error halt) := by
        simp only [plain, if_neg (Int.not_lt.mpr hw), Nat.cast_zero, sub_zero, hle, if_false]
      rw [hcut]
      exact ⟨hs, hdata⟩

theorem trailers_ends (source : Source) : source.trailers = .ok () ∨ source.trailers = .error .waiting := by
  fun_induction trailers source with
  | case1 source h => exact .inr rfl
  | case2 source error message h => exact .inl rfl
  | case3 source rest h => exact .inl rfl
  | case4 source line rest h hl ih => exact ih

theorem chunked_first {source rest : Source} {line : Bytes} (h : source.readLine = .ok (line, rest))
    (hs : (strtoll (chunkHeader line) 16).2 ≠ 0) (hp : 0 < (strtoll (chunkHeader line) 16).1) :
    (rest.plain (strtoll (chunkHeader line) 16).1 0).1 <+: source.chunked.1 := by
  cases hd : (rest.plain (strtoll (chunkHeader line) 16).1 0).2 with
  | error halt => rw [chunked_cut h hs hp hd]
  | ok rest2 =>
    cases he : rest2.readLine with
    | error halt => rw [chunked_unended h hs hp hd he]
    | ok p =>
      rw [chunked_chunk h hs hp hd he]
      exact List.prefix_append _ _

theorem chunked_within (source : Source) (tail : Bytes) (stop' : Stop) (hs : source.stop.Fault) :
    source.chunked.1 <+: (chunked ⟨source.data ++ tail, stop'⟩).1 ∧
      match source.chunked.2 with
      | .error halt => halt.Fault
      | .ok () => source.chunked.1 = (chunked ⟨source.data ++ tail, stop'⟩).1 := by
  fun_induction chunked source with
  | case1 source halt h => exact ⟨List.nil_prefix, readLine_fault hs h⟩
  | case2 source line rest h header size hbad => exact ⟨List.nil_prefix, Error.noConfusion⟩
  | case3 source line rest h header size hbad hz =>
    obtain ⟨hr, hfull⟩ := readLine_cut tail stop' hs h
    rw [chunked_last hfull (fun h => hbad (.inl h)) hz]
    refine ⟨List.nil_prefix, ?_⟩
    rcases trailers_ends rest with ht | ht
    · rw [ht]
    · rw [ht]
      trivial
  | case4 source line rest h header size hbad hz data halt hd =>
    obtain ⟨hr, hfull⟩ := readLine_cut tail stop' hs h
    have hpos : 0 < size.1 := by omega
    have hp := plain_cut rest size.1 tail stop' hr hpos.le
    rw [hd] at hp
    exact ⟨hp.2.trans (chunked_first hfull (fun h => hbad (.inl h)) hpos), hp.1⟩
  | case5 source line rest h header size hbad hz data rest2 hd halt he =>
    obtain ⟨hr, hfull⟩ := readLine_cut tail stop' hs h
    have hpos : 0 < size.1 := by omega
    have hp := plain_cut rest size.1 tail stop' hr hpos.le
    rw [hd] at hp
    have hfirst := chunked_first hfull (fun h => hbad (.inl h)) hpos
    rw [hp.2] at hfirst
    exact ⟨hfirst, readLine_fault hp.1 he⟩
  | case6 source line rest h header size hbad hz data rest2 hd line' rest3 he ih =>
    obtain ⟨hr, hfull⟩ := readLine_cut tail stop' hs h
    have hpos : 0 < size.1 := by omega
    have hp := plain_cut rest size.1 tail stop' hr hpos.le
    rw [hd] at hp
    obtain ⟨hr3, hfull3⟩ := readLine_cut tail stop' hp.1 he
    have hchunk := chunked_chunk hfull (fun h => hbad (.inl h)) hpos (by rw [hp.2]) hfull3
    rw [hchunk, hp.2]
    obtain ⟨hpre, hend⟩ := ih hr3
    refine ⟨(List.prefix_append_right_inj _).mpr hpre, ?_⟩
    cases hc : rest3.chunked.2 with
    | error halt =>
      rw [hc] at hend
      exact hend
    | ok u =>
      rw [hc] at hend
      simp only at hend ⊢
      rw [hend]

theorem body_cut (source : Source) (head : Head) (tail : Bytes) (stop' : Stop) (hs : source.stop.Fault)
    (hframed : head.chunked = true ∨ 0 ≤ head.contentLength) :
    (source.body head).1 <+: (body ⟨source.data ++ tail, stop'⟩ head).1 ∧
      match (source.body head).2 with
      | .error halt => halt.Fault
      | .ok () => (source.body head).1 = (body ⟨source.data ++ tail, stop'⟩ head).1 := by
  by_cases hc : head.chunked = true
  · simp only [body, hc, if_true]
    exact chunked_within source tail stop' hs
  · have hp := plain_cut source head.contentLength tail stop' hs (hframed.resolve_left hc)
    simp only [body, hc]
    cases hd : (source.plain head.contentLength 0).2 with
    | error halt =>
      rw [hd] at hp
      exact ⟨hp.2, hp.1⟩
    | ok rest =>
      rw [hd] at hp
      simp [hp.2, Except.map]

end Source

def Reply.Within (reply : Reply) (info : ResponseInfo) (whole : Bytes) : Prop :=
  reply.announced = some info ∧ reply.body <+: whole ∧
    ∀ attempt, reply.attempt = some attempt → attempt.result.error = .ok → reply.body = whole

def Reply.Empty (reply : Reply) : Prop :=
  reply.announced = none ∧
    ∀ attempt, reply.attempt = some attempt → attempt.redirectTo = [] → attempt.result.error ≠ .ok

theorem Halt.attempt_error {info : ResponseInfo} {bytes : ℕ} {halt : Halt} {attempt : Attempt} (hf : halt.Fault)
    (h : halt.attempt info bytes = some attempt) : attempt.result.error ≠ .ok := by
  cases halt with
  | waiting => simp [Halt.attempt] at h
  | failed error message =>
    simp only [Halt.attempt, Option.some.injEq] at h
    rw [← h]
    exact hf

theorem Halt.attempt_empty {info : ResponseInfo} {bytes : ℕ} {halt : Halt} (hf : halt.Fault) :
    Reply.Empty ⟨halt.attempt info bytes, none, []⟩ :=
  ⟨rfl, fun _ h _ => attempt_error hf h⟩

theorem inspectHead_error {url : Url} {request : Request} {info : ResponseInfo} {headers : Headers}
    {attempt : Attempt} (h : inspectHead url request info headers = .error attempt) :
    attempt.redirectTo = [] → attempt.result.error ≠ .ok := by
  intro hto
  unfold inspectHead at h
  dsimp only at h
  by_cases hr : isRedirect info.statusCode = true
  · rw [if_pos hr] at h
    split_ifs at h with hl
    · cases h
      exact absurd hto hl
    · cases h
      exact Error.noConfusion
  · rw [if_neg hr] at h
    by_cases hs : 400 ≤ info.statusCode
    · rw [if_pos hs] at h
      cases h
      exact Error.noConfusion
    · rw [if_neg hs] at h
      cases h

theorem Source.respond_empty (url : Url) (request : Request) (source : Source) (hs : source.stop.Fault)
    (hnone : (source.respond url request).announced = none) : (source.respond url request).Empty := by
  cases hl : source.readLine with
  | error halt =>
    simp only [respond, hl]
    exact Halt.attempt_empty (readLine_fault hs hl)
  | ok p =>
    obtain ⟨line, rest1⟩ := p
    by_cases hv : (parseStatusLine line).1 = false
    · simp only [respond, hl, hv, if_true]
      exact ⟨rfl, fun attempt h _ => by cases h; exact Error.noConfusion⟩
    · have hc := readHeaders_cut rest1 {} [] .closed (readLine_cut [] .closed hs hl).1
      cases hr : rest1.readHeaders {} with
      | error halt =>
        rw [hr] at hc
        simp only [respond, hl, hv, hr]
        exact Halt.attempt_empty hc
      | ok q =>
        obtain ⟨headers, rest2⟩ := q
        cases hi : inspectHead url request
            { statusCode := (parseStatusLine line).2.1, reason := (parseStatusLine line).2.2 } headers with
        | error attempt =>
          simp only [respond, hl, hv, hr, hi]
          exact ⟨rfl, fun a ha => by cases ha; exact inspectHead_error hi⟩
        | ok head => simp [respond, hl, hv, hr, hi] at hnone

theorem Opened.reply_empty (url : Url) (request : Request) (polls : Bool) (opened : Opened)
    (hnone : (opened.reply url request polls).announced = none) : (opened.reply url request polls).Empty := by
  cases opened with
  | refused error message failed =>
    refine ⟨rfl, fun a ha _ => ?_⟩
    cases ha
    rcases failed with rfl | rfl <;> simp
  | connected conn =>
    cases hs : sendAll (requestHead url request).length conn.sends with
    | error halt =>
      cases halt with
      | waiting =>
        simp only [reply, hs]
        exact ⟨rfl, fun a ha => by cases ha⟩
      | failed error message =>
        simp only [reply, hs]
        exact ⟨rfl, fun a ha _ => by cases ha; exact Error.noConfusion⟩
    | ok u =>
      simp only [reply, hs] at hnone ⊢
      exact Source.respond_empty url request _ (Source.ofTicks_fault _ _ _) hnone

theorem Reply.plain_empty {result : Result} (h : result.error ≠ .ok) : (Reply.plain result).Empty :=
  ⟨rfl, fun a ha _ => by cases ha; exact h⟩

theorem Net.reply_induct (request : Request) (polls : Bool) (net : Net) (P : Reply → Prop)
    (hplain : ∀ result : Result, result.error ≠ .ok → P (.plain result))
    (hhop : ∀ hop url current, (∀ attempt, ((net.opened hop).reply url { request with url := current } polls).attempt =
      some attempt → attempt.redirectTo = []) → P ((net.opened hop).reply url { request with url := current } polls)) :
    P (net.reply request polls) := by
  unfold Net.reply
  generalize request.maxRedirects + 1 = left
  generalize request.url = current
  generalize (0 : ℕ) = hop
  induction left generalizing hop current with
  | zero => exact hplain _ Error.noConfusion
  | succ left ih =>
    unfold Net.replyFrom
    cases parseUrl current with
    | none => exact hplain _ Error.noConfusion
    | some url =>
      dsimp only
      split_ifs
      · exact hplain _ Error.noConfusion
      · cases ha : ((net.opened hop).reply url { request with url := current } polls).attempt with
        | none => exact hhop hop url current (by simp [ha])
        | some attempt =>
          dsimp only
          split_ifs with hto
          · exact hhop hop url current (by simp [ha, hto])
          · exact ih attempt.redirectTo (hop + 1)

theorem Net.reply_announced (request : Request) (polls : Bool) (net : Net) (attempt : Attempt)
    (ha : (net.reply request polls).attempt = some attempt) (hok : attempt.result.error = .ok) :
    (net.reply request polls).announced.isSome := by
  revert attempt
  refine net.reply_induct request polls (fun reply => ∀ attempt, reply.attempt = some attempt →
    attempt.result.error = .ok → reply.announced.isSome) ?_ ?_
  · intro result hne attempt ha hok
    cases ha
    exact absurd hok hne
  · intro hop url current hto attempt ha hok
    by_contra hnone
    rw [Option.not_isSome_iff_eq_none] at hnone
    exact ((net.opened hop).reply_empty url _ polls hnone).2 attempt ha (hto attempt ha) hok

section Response

variable {body : Bytes} (response : Response body)

theorem Response.readLine_cut {data tail extra line : Bytes} {stop : Stop} {rest : Source} (hs : stop.Fault)
    (hcut : data ++ tail = response.render ++ extra) (h : Source.readLine ⟨data, stop⟩ = .ok (line, rest)) :
    line = response.status.text ∧ rest.stop.Fault ∧ rest.data ++ tail = response.fields.flatMap Field.render ++
      (response.eol.bytes ++ (response.framing.payload ++ extra)) := by
  obtain ⟨hr, hfull⟩ := Source.readLine_cut tail .closed hs h
  have hline := Source.readLine_line response.status (response.fields.flatMap Field.render ++
    (response.eol.bytes ++ (response.framing.payload ++ extra))) .closed
  simp only [hcut, render, List.append_assoc] at hfull
  rw [hline] at hfull
  simp only [Except.ok.injEq, Prod.mk.injEq, Source.mk.injEq, and_true] at hfull
  exact ⟨hfull.1.symm, hr, hfull.2.symm⟩

theorem Response.readHeaders_cut {tail extra : Bytes} {source rest : Source} {headers : Headers}
    (hs : source.stop.Fault) (hcut : source.data ++ tail = response.fields.flatMap Field.render ++
      (response.eol.bytes ++ (response.framing.payload ++ extra)))
    (h : source.readHeaders {} = .ok (headers, rest)) :
    headers = response.headers ∧ rest.stop.Fault ∧ rest.data ++ tail = response.framing.payload ++ extra := by
  have hc := Source.readHeaders_cut source {} tail .closed hs
  rw [h] at hc
  have hheaders := Source.readHeaders_fields response.fields response.eol (response.framing.payload ++ extra)
    .closed {} (by simpa [Headers.size, fields] using response.count)
  obtain ⟨hr, hfull⟩ := hc
  rw [hcut, hheaders] at hfull
  simp only [Except.ok.injEq, Prod.mk.injEq, Source.mk.injEq, and_true] at hfull
  exact ⟨hfull.1.symm, hr, hfull.2.symm⟩

theorem Response.framed (hframing : response.framing.delimited = true) :
    response.headers.contains (ascii "Transfer-Encoding") (ascii "chunked") = true ∨
      0 ≤ contentLength response.headers := by
  obtain ⟨hl, hc⟩ := response.framing_head
  cases hf : response.framing with
  | length field named spells =>
    rw [hf] at hl
    exact .inr (by rw [hl]; exact Int.natCast_nonneg _)
  | chunked field named value coding decodes =>
    rw [hf] at hc
    exact .inl hc
  | close => simp [hf, Framing.delimited] at hframing

theorem inspectHead_refused (url : Url) (request : Request) (info : ResponseInfo) (headers : Headers)
    (h : isRedirect info.statusCode = true ∨ 400 ≤ info.statusCode) :
    ∃ attempt, inspectHead url request info headers = .error attempt := by
  unfold inspectHead
  dsimp only
  by_cases hr : isRedirect info.statusCode = true
  · rw [if_pos hr]
    split_ifs
    · exact ⟨_, rfl⟩
    · exact ⟨_, rfl⟩
  · rw [if_neg hr, if_pos (h.resolve_left hr)]
    exact ⟨_, rfl⟩

theorem Response.respond_head (url : Url) (request : Request) {data tail extra : Bytes} {stop : Stop}
    (hs : stop.Fault) (hcut : data ++ tail = response.render ++ extra) :
    (Source.respond url request ⟨data, stop⟩).Empty ∨
      ∃ rest : Source, rest.stop.Fault ∧ rest.data ++ tail = response.framing.payload ++ extra ∧
        Source.respond url request ⟨data, stop⟩ =
          rest.proceed
            (inspectHead url request { statusCode := response.code
                                       reason := (parseStatusLine response.status.text).2.2 } response.headers) := by
  obtain ⟨hvalid, hstatus⟩ := response.status_parsed
  cases hl : Source.readLine ⟨data, stop⟩ with
  | error halt =>
    simp only [Source.respond, hl]
    exact .inl (Halt.attempt_empty (Source.readLine_fault hs hl))
  | ok p =>
    obtain ⟨line, rest1⟩ := p
    obtain ⟨rfl, hs1, hcut1⟩ := response.readLine_cut hs hcut hl
    cases hr : rest1.readHeaders {} with
    | error halt =>
      have hc := Source.readHeaders_cut rest1 {} tail .closed hs1
      rw [hr] at hc
      simp only [Source.respond, hl, hvalid, hr, Bool.true_eq_false, if_false]
      exact .inl (Halt.attempt_empty hc)
    | ok q =>
      obtain ⟨headers, rest2⟩ := q
      obtain ⟨rfl, hs2, hcut2⟩ := response.readHeaders_cut hs1 hcut1 hr
      refine .inr ⟨rest2, hs2, hcut2, ?_⟩
      rw [Source.respond_proceed url request hl hvalid hr, hstatus]

theorem Response.respond_refused (url : Url) (request : Request) {data tail extra : Bytes} {stop : Stop}
    (hs : stop.Fault) (hcut : data ++ tail = response.render ++ extra)
    (hcode : isRedirect response.code = true ∨ 400 ≤ response.code) :
    (Source.respond url request ⟨data, stop⟩).Empty := by
  rcases response.respond_head url request hs hcut with h | ⟨rest, -, -, h⟩
  · exact h
  · have hstatus : isRedirect (response.code : ℤ) = true ∨ (400 : ℤ) ≤ response.code := by
      exact_mod_cast hcode
    obtain ⟨attempt, hi⟩ := inspectHead_refused url request
      { statusCode := response.code, reason := (parseStatusLine response.status.text).2.2 } response.headers hstatus
    rw [h, hi]
    refine ⟨rfl, fun a ha hto => ?_⟩
    cases ha
    exact inspectHead_error hi hto

theorem Response.respond_cut (url : Url) (request : Request) {data tail extra : Bytes} {stop : Stop}
    (hs : stop.Fault) (hcut : data ++ tail = response.render ++ extra) (hcode : response.code < 400)
    (hredirect : isRedirect response.code = false) (hframing : response.framing.delimited = true) :
    (Source.respond url request ⟨data, stop⟩).Empty ∨
      (Source.respond url request ⟨data, stop⟩).Within (response.info url request) body := by
  rcases response.respond_head url request hs hcut with h | ⟨rest, hr, hrest, h⟩
  · exact .inl h
  · refine .inr ?_
    rw [response.inspectHead_ok url request hcode hredirect, Source.proceed] at h
    obtain ⟨hpre, hend⟩ := Source.body_cut rest (response.announces url request) tail .closed hr
      (response.framed hframing)
    rw [hrest, response.body_framing url request extra .closed (.inl hframing)] at hpre hend
    rw [h]
    refine ⟨rfl, hpre, fun attempt ha hok => ?_⟩
    cases hb : (rest.body (response.announces url request)).2 with
    | error halt =>
      rw [hb] at hend
      simp only [hb, Source.ending] at ha
      exact absurd hok (Halt.attempt_error hend ha)
    | ok u =>
      rw [hb] at hend
      exact hend

end Response

end BinderDownload.Http
