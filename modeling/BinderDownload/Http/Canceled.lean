import BinderDownload.Http.Replay

namespace BinderDownload.Http

open Text

variable {σ ρ : Type} {journal front : List Entry} {canceled : Prop}

def Quiet (journal : List Entry) : Prop := .poll true ∉ journal

def Ends (journal : List Entry) : Prop := ∃ front, journal = front ++ [.poll true] ∧ Quiet front

def Obeys (journal : List Entry) (canceled : Prop) : Prop :=
  Quiet journal ∧ ¬canceled ∨ Ends journal ∧ canceled

def Halt.Canceled (halt : Halt) : Prop := ∃ message, halt = .failed .canceled message

def Canceled (outcome : Except Halt ρ) : Prop := ∃ halt, outcome = .error halt ∧ halt.Canceled

@[simp] theorem canceled_error (halt : Halt) : Canceled (.error halt : Except Halt ρ) ↔ halt.Canceled := by
  simp [Canceled]

@[simp] theorem not_canceled_ok (a : ρ) : ¬Canceled (.ok a : Except Halt ρ) := by simp [Canceled]

@[simp] theorem quiet_nil : Quiet [] := by simp [Quiet]

theorem quiet_append : Quiet (front ++ journal) ↔ Quiet front ∧ Quiet journal := by simp [Quiet]

theorem Ends.append (hfront : Quiet front) (h : Ends journal) : Ends (front ++ journal) := by
  obtain ⟨before, rfl, hbefore⟩ := h
  exact ⟨front ++ before, by simp, quiet_append.mpr ⟨hfront, hbefore⟩⟩

theorem Obeys.append (hfront : Quiet front) (h : Obeys journal canceled) : Obeys (front ++ journal) canceled := by
  rcases h with ⟨hquiet, hnot⟩ | ⟨hends, hcanceled⟩
  · exact .inl ⟨quiet_append.mpr ⟨hfront, hquiet⟩, hnot⟩
  · exact .inr ⟨hends.append hfront, hcanceled⟩

theorem Obeys.quiet (h : Obeys journal canceled) (hnot : ¬canceled) : Quiet journal := by
  rcases h with ⟨hquiet, -⟩ | ⟨-, hcanceled⟩
  · exact hquiet
  · exact absurd hcanceled hnot

theorem obeys_nil (hnot : ¬canceled) : Obeys [] canceled := .inl ⟨quiet_nil, hnot⟩

theorem Obeys.congr {canceled' : Prop} (h : Obeys journal canceled) (hiff : canceled ↔ canceled') :
    Obeys journal canceled' := by
  rwa [Obeys, ← hiff]

namespace Reader

theorem fillFrom_obeys (r : Reader) (ts : List Tick) :
    Obeys (fillEntries r.polls r.mIdleTimeoutMs ts) (Canceled (r.fillFrom ts)) := by
  induction ts with
  | nil => exact obeys_nil (by simp [fillFrom, Halt.Canceled])
  | cons t ts ih =>
    rw [fillEntries, fillFrom]
    by_cases hc : r.polls && t.canceled
    · obtain ⟨hpolls, hyes⟩ := Bool.and_eq_true_iff.mp hc
      simp only [hpolls, hyes, if_true, Bool.and_self, List.append_nil]
      exact .inr ⟨⟨[], rfl, quiet_nil⟩, by simp [Halt.Canceled]⟩
    · have hpoll : Quiet (if r.polls then [.poll t.canceled] else []) := by
        split_ifs with hpolls
        · simp_all [Quiet]
        · exact quiet_nil
      rw [if_neg hc, if_neg hc]
      apply Obeys.append hpoll
      rw [← List.singleton_append]
      apply Obeys.append (by simp [Quiet])
      cases t.recv with
      | data segment => exact obeys_nil (by simp)
      | closed => exact obeys_nil (by simp)
      | again elapsedMs =>
        dsimp only
        split_ifs
        · exact obeys_nil (by simp [Halt.Canceled])
        · exact ih
      | broken error => exact obeys_nil (by simp [Halt.Canceled])

theorem fill_obeys (r : Reader) : Obeys r.fillJournal (Canceled r.fill) := fillFrom_obeys r r.ticks

theorem readLineFrom_obeys (line : Bytes) (r : Reader) :
    Obeys (readLineFromJournal line r) (Canceled (r.readLineFrom line)) := by
  fun_induction readLineFrom line r with
  | case1 line r l n hs =>
    rw [readLineFromJournal, hs]
    exact obeys_nil (by simp)
  | case2 line r hs =>
    rw [readLineFromJournal, hs]
    exact obeys_nil (by simp [Halt.Canceled])
  | case3 line r l hs halt hf =>
    have hfill := fill_obeys (r.consume r.bufferedSize)
    rw [hf, canceled_error] at hfill
    rw [readLineFromJournal, hs, canceled_error]
    dsimp only
    split <;> rename_i h' <;> rw [hf] at h' <;> cases h'
    rw [List.append_nil]
    exact hfill
  | case4 line r l hs r' hf =>
    have hfill := (fill_obeys (r.consume r.bufferedSize)).quiet (by simp [hf])
    rw [readLineFromJournal, hs]
    dsimp only
    split <;> rename_i h' <;> rw [hf] at h' <;> cases h'
    exact (obeys_nil (by simp [Halt.Canceled])).append hfill
  | case5 line r l hs r' hf ih =>
    have hfill := (fill_obeys (r.consume r.bufferedSize)).quiet (by simp [hf])
    rw [readLineFromJournal, hs]
    dsimp only
    split <;> rename_i h' <;> rw [hf] at h' <;> cases h'
    exact ih.append hfill

theorem readLine_obeys (r : Reader) : Obeys r.readLineJournal (Canceled r.readLine) := readLineFrom_obeys [] r

theorem refill_obeys (r : Reader) : Obeys r.refillJournal (Canceled r.refill) := by
  unfold refillJournal refill
  split_ifs
  · exact fill_obeys r
  · exact obeys_nil (by simp)

end Reader

theorem pumpPlain_obeys (r : Reader) (want : ℤ) (f : BodyFn σ) (s : σ) (written : ℕ) :
    Obeys (pumpPlainJournal r want f s written) (Canceled (pumpPlain r want f s written).outcome) := by
  fun_induction pumpPlain r want f s written with
  | case1 r s written hw halt hr =>
    have hrefill := r.refill_obeys
    rw [hr, canceled_error] at hrefill
    rw [pumpPlainJournal_error f s hw hr, canceled_error]
    exact hrefill
  | case2 r s written hw r' hr hneg =>
    rw [pumpPlainJournal_closed f s hw hr]
    exact .inl ⟨r.refill_obeys.quiet (by simp [hr]), by simp⟩
  | case3 r s written hw r' hr hneg =>
    rw [pumpPlainJournal_closed f s hw hr]
    exact .inl ⟨r.refill_obeys.quiet (by simp [hr]), by simp [closedEarly, Halt.Canceled]⟩
  | case4 r s written hw r' hr chunk t hf =>
    rw [pumpPlainJournal_rejected f s hw hr hf]
    apply Obeys.append (r.refill_obeys.quiet (by simp [hr]))
    exact .inl ⟨by simp [Quiet], by simp [sinkRejected, Halt.Canceled]⟩
  | case5 r s written hw r' hr chunk t hf ih =>
    rw [pumpPlainJournal_accepted f s hw hr hf]
    apply Obeys.append (r.refill_obeys.quiet (by simp [hr]))
    exact ih.append (by simp [Quiet])
  | case6 r s written hw =>
    rw [pumpPlainJournal_met f s hw]
    exact obeys_nil (by simp)

theorem pumpPlainJournal_lastChunk (r : Reader) (want : ℤ) (f : BodyFn σ) (s : σ) (written : ℕ) :
    .lastChunk ∉ pumpPlainJournal r want f s written := by
  fun_induction pumpPlain r want f s written with
  | case1 r s written hw halt hr =>
    rw [pumpPlainJournal_error f s hw hr]
    exact r.refill_reads.lastChunk
  | case2 r s written hw r' hr hneg =>
    rw [pumpPlainJournal_closed f s hw hr]
    exact r.refill_reads.lastChunk
  | case3 r s written hw r' hr hneg =>
    rw [pumpPlainJournal_closed f s hw hr]
    exact r.refill_reads.lastChunk
  | case4 r s written hw r' hr chunk t hf =>
    rw [pumpPlainJournal_rejected f s hw hr hf]
    simp [r.refill_reads.lastChunk]
  | case5 r s written hw r' hr chunk t hf ih =>
    rw [pumpPlainJournal_accepted f s hw hr hf]
    simpa [r.refill_reads.lastChunk] using ih
  | case6 r s written hw => simp [pumpPlainJournal_met f s hw]

theorem pumpPlain_bodies (r r' : Reader) (want : ℤ) (f : BodyFn σ) (s : σ) (written : ℕ)
    (h : (pumpPlain r want f s written).outcome = .ok r') :
    (bodies (pumpPlainJournal r want f s written)).flatten = (r.source.plain want written).1 := by
  fun_induction pumpPlain r want f s written with
  | case1 r s written hw halt hr => cases h
  | case2 r s written hw r2 hr hneg =>
    rw [pumpPlainJournal_closed f s hw hr, r.refill_reads.bodies, (Reader.refill_closed hr).1,
      Source.plain_closed want written hw]
    rfl
  | case3 r s written hw r2 hr hneg => cases h
  | case4 r s written hw r2 hr chunk t hf => cases h
  | case5 r s written hw r2 hr chunk t hf ih =>
    obtain ⟨hpos, hle, hlen, hsrc⟩ := Reader.source_slice hr hw
    have hbuf : r2.buffered.take chunk = r.source.data.take chunk := by
      rw [← (Reader.refill_source hr).1, Reader.source,
        List.take_append_of_le_length (by rw [Reader.buffered_length]; exact hle)]
    have hstep := Source.plain_step r.source want written chunk hlen
      (by unfold chunk Reader.slice; split_ifs <;> omega)
    rw [pumpPlainJournal_accepted f s hw hr hf, bodies_append, bodies_append, r.refill_reads.bodies, hstep, ← hbuf,
      ← hsrc, ← ih h]
    rfl
  | case6 r s written hw =>
    rw [pumpPlainJournal_met f s hw, Source.plain_met r.source want written hw]
    rfl

theorem trailers_ends (r : Reader) :
    ¬Canceled (trailers r) ∧ (Quiet (trailersJournal r) ∨ Ends (trailersJournal r) ∧ trailers r = .ok ()) := by
  fun_induction trailers r with
  | case1 r h =>
    rw [trailersJournal_error h]
    exact ⟨by simp [Halt.Canceled], .inl (r.readLine_obeys.quiet (by simp [h, Halt.Canceled]))⟩
  | case2 r e m h =>
    rw [trailersJournal_error h]
    rcases r.readLine_obeys with ⟨hquiet, -⟩ | ⟨hends, -⟩
    · exact ⟨by simp, .inl hquiet⟩
    · exact ⟨by simp, .inr ⟨hends, rfl⟩⟩
  | case3 r r' h =>
    rw [trailersJournal_ok h, if_pos rfl, List.append_nil]
    exact ⟨by simp, .inl (r.readLine_obeys.quiet (by simp [h]))⟩
  | case4 r line r' h hl ih =>
    have hfront := r.readLine_obeys.quiet (by simp [h])
    obtain ⟨hnot, hquiet | ⟨hends, hok⟩⟩ := ih
    · rw [trailersJournal_ok h, if_neg hl]
      exact ⟨hnot, .inl (quiet_append.mpr ⟨hfront, hquiet⟩)⟩
    · rw [trailersJournal_ok h, if_neg hl]
      exact ⟨hnot, .inr ⟨hends.append hfront, hok⟩⟩

/-- The journal stops at the first poll that answers yes. It is the reason of the outcome unless it came behind the
last chunk, where it makes no difference. -/
def Verdict (journal : List Entry) (outcome : Except Halt ρ) : Prop :=
  Quiet journal ∧ ¬Canceled outcome ∨ Ends journal ∧ .lastChunk ∉ journal ∧ Canceled outcome ∨
    Ends journal ∧ .lastChunk ∈ journal ∧ ∃ a, outcome = .ok a

theorem Obeys.verdict {outcome : Except Halt ρ} (h : Obeys journal (Canceled outcome)) (hlast : .lastChunk ∉ journal) :
    Verdict journal outcome := by
  rcases h with hquiet | ⟨hends, hcanceled⟩
  · exact .inl hquiet
  · exact .inr (.inl ⟨hends, hlast, hcanceled⟩)

theorem Verdict.append {outcome : Except Halt ρ} (hfront : Quiet front) (hlast : .lastChunk ∉ front)
    (h : Verdict journal outcome) : Verdict (front ++ journal) outcome := by
  rcases h with ⟨hquiet, hnot⟩ | ⟨hends, hnone, hcanceled⟩ | ⟨hends, hmem, hok⟩
  · exact .inl ⟨quiet_append.mpr ⟨hfront, hquiet⟩, hnot⟩
  · exact .inr (.inl ⟨hends.append hfront, by simp [hlast, hnone], hcanceled⟩)
  · exact .inr (.inr ⟨hends.append hfront, List.mem_append_right front hmem, hok⟩)

theorem pumpChunked_verdict (r : Reader) (f : BodyFn σ) (s : σ) (written : ℕ) :
    Verdict (pumpChunkedJournal r f s) (pumpChunked r f s written).outcome := by
  fun_induction pumpChunked r f s written with
  | case1 r s written halt h =>
    have hline := r.readLine_obeys
    rw [h, canceled_error] at hline
    rw [pumpChunkedJournal_error f s h]
    exact (hline.congr (canceled_error halt).symm).verdict r.readLine_reads.lastChunk
  | case2 r s written line r1 h header size hbad =>
    have hfront := r.readLine_obeys.quiet (by simp [h])
    rw [pumpChunkedJournal_malformed f s h hbad]
    exact .inl ⟨hfront, by simp [malformedChunk, Halt.Canceled]⟩
  | case3 r s written line r1 h header size hbad hz =>
    have hfront := r.readLine_obeys.quiet (by simp [h])
    have hchunk : Quiet (r.readLineJournal ++ [.lastChunk]) := quiet_append.mpr ⟨hfront, by simp [Quiet]⟩
    rw [pumpChunkedJournal_last f s h hbad hz, ← List.append_assoc]
    obtain ⟨hnot, hquiet | ⟨hends, hok⟩⟩ := trailers_ends r1
    · exact .inl ⟨quiet_append.mpr ⟨hchunk, hquiet⟩, hnot⟩
    · exact .inr (.inr ⟨hends.append hchunk, by simp, (), hok⟩)
  | case4 r s written line r1 h header size hbad hz pumped halt hp =>
    have hfront := r.readLine_obeys.quiet (by simp [h])
    have hplain := pumpPlain_obeys r1 size.1 f s 0
    rw [pumpChunkedJournal_cut f s h hbad hz hp]
    apply Verdict.append hfront r.readLine_reads.lastChunk
    exact (hplain.congr (by rw [hp, canceled_error, canceled_error])).verdict
      (pumpPlainJournal_lastChunk r1 size.1 f s 0)
  | case5 r s written line r1 h header size hbad hz pumped r2 hp halt he =>
    have hfront := r.readLine_obeys.quiet (by simp [h])
    have hplain : Quiet (pumpPlainJournal r1 size.1 f s 0) := (pumpPlain_obeys r1 size.1 f s 0).quiet (by
      rw [hp]
      exact not_canceled_ok r2)
    rw [pumpChunkedJournal_unended f s h hbad hz hp he]
    apply Verdict.append hfront r.readLine_reads.lastChunk
    apply Verdict.append hplain (pumpPlainJournal_lastChunk r1 size.1 f s 0)
    exact (r2.readLine_obeys.congr (by rw [he, canceled_error, canceled_error])).verdict r2.readLine_reads.lastChunk
  | case6 r s written line r1 h header size hbad hz pumped r2 hp line' r3 he ih =>
    have hfront := r.readLine_obeys.quiet (by simp [h])
    have hplain : Quiet (pumpPlainJournal r1 size.1 f s 0) := (pumpPlain_obeys r1 size.1 f s 0).quiet (by
      rw [hp]
      exact not_canceled_ok r2)
    rw [pumpChunkedJournal_chunk f s h hbad hz hp he]
    apply Verdict.append hfront r.readLine_reads.lastChunk
    apply Verdict.append hplain (pumpPlainJournal_lastChunk r1 size.1 f s 0)
    exact Verdict.append (r2.readLine_obeys.quiet (by simp [he])) r2.readLine_reads.lastChunk ih

theorem pumpChunked_bodies (r : Reader) (f : BodyFn σ) (s : σ) (written : ℕ)
    (h : (pumpChunked r f s written).outcome = .ok ()) :
    Coded ReadSize Short r.source.data (bodies (pumpChunkedJournal r f s)).flatten := by
  fun_induction pumpChunked r f s written with
  | case1 r s written halt hr => cases h
  | case2 r s written line r1 hr header size hbad => cases h
  | case3 r s written line r1 hr header size hbad hz =>
    obtain ⟨text, hdata, -, htext, hshort, rfl⟩ := Source.readLine_split (Reader.readLine_ok hr)
    rw [pumpChunkedJournal_last f s hr hbad hz, bodies_append, bodies_append, r.readLine_reads.bodies,
      (trailersJournal_reads r1).bodies, hdata]
    exact .last r1.source.data htext ⟨hshort, (not_or.mp hbad).1, hz⟩
  | case4 r s written line r1 hr header size hbad hz pumped halt hp => cases h
  | case5 r s written line r1 hr header size hbad hz pumped r2 hp halt he => cases h
  | case6 r s written line r1 hr header size hbad hz pumped r2 hp line' r3 he ih =>
    have hplain : (bodies (pumpPlainJournal r1 size.1 f s 0)).flatten = (r1.source.plain size.1 0).1 :=
      pumpPlain_bodies r1 r2 size.1 f s 0 hp
    have hrest : (r1.source.plain size.1 0).2 = .ok r2.source := pumpPlain_source hp
    obtain ⟨text, hdata, -, htext, hshort, rfl⟩ := Source.readLine_split (Reader.readLine_ok hr)
    obtain ⟨hdata2, hlength, -⟩ := Source.plain_split (by omega) hrest
    obtain ⟨tail, hdata3, -, htail, hbehind, -⟩ := Source.readLine_split (Reader.readLine_ok he)
    rw [pumpChunkedJournal_chunk f s hr hbad hz hp he, bodies_append, bodies_append, bodies_append,
      r.readLine_reads.bodies, r2.readLine_reads.bodies, List.nil_append, List.nil_append, List.flatten_append, hplain,
      hdata, hdata2, hdata3]
    refine .chunk htext ⟨hshort, (not_or.mp hbad).1, hlength.symm⟩ (fun hnil => ?_) htail hbehind (ih h)
    rw [hnil] at hlength
    exact hz hlength.symm

theorem readHeaders_obeys (r : Reader) (headers : Headers) :
    Obeys (readHeadersJournal r headers) (Canceled (readHeaders r headers)) := by
  fun_induction readHeaders r headers with
  | case1 r headers halt h =>
    rw [readHeadersJournal_error headers h]
    exact r.readLine_obeys.congr (by rw [h, canceled_error, canceled_error])
  | case2 r headers r' h =>
    rw [readHeadersJournal_ok headers h, if_pos rfl, List.append_nil]
    exact .inl ⟨r.readLine_obeys.quiet (by simp [h]), by simp⟩
  | case3 r headers line r' h hl hc ih =>
    simp only [readHeadersJournal_ok headers h, if_neg hl, hc]
    exact ih.append (r.readLine_obeys.quiet (by simp [h]))
  | case4 r headers line r' h hl colon hc hk =>
    simp only [readHeadersJournal_ok headers h, if_neg hl, hc, if_pos hk, List.append_nil]
    exact .inl ⟨r.readLine_obeys.quiet (by simp [h]), by simp [Halt.Canceled]⟩
  | case5 r headers line r' h hl colon hc hk ih =>
    simp only [readHeadersJournal_ok headers h, if_neg hl, hc, if_neg hk]
    exact ih.append (r.readLine_obeys.quiet (by simp [h]))

/-- How a journal and a result go together; `whole` is what the pieces of the body are if the last chunk was read. -/
def Settles (whole : List Bytes → Prop) (journal : List Entry) (result : Option Result) : Prop :=
  (Quiet journal ∧ ∀ res ∈ result, res.error ≠ .canceled) ∨
    Ends journal ∧ ∃ res, result = some res ∧
      (.lastChunk ∉ journal ∧ res.error = .canceled ∨
        .lastChunk ∈ journal ∧ res.error = .ok ∧ whole (bodies journal))

section Settles

variable {whole whole' : List Bytes → Prop} {result : Option Result}

theorem Settles.append (hquiet : Quiet front) (hlast : .lastChunk ∉ front) (hbodies : bodies front = [])
    (h : Settles whole journal result) : Settles whole (front ++ journal) result := by
  rcases h with ⟨hrest, herror⟩ | ⟨hends, res, hres, ⟨hnone, herror⟩ | ⟨hmem, herror, hwhole⟩⟩
  · exact .inl ⟨quiet_append.mpr ⟨hquiet, hrest⟩, herror⟩
  · exact .inr ⟨hends.append hquiet, res, hres, .inl ⟨by simp [hlast, hnone], herror⟩⟩
  · refine .inr ⟨hends.append hquiet, res, hres, .inr ⟨List.mem_append_right front hmem, herror, ?_⟩⟩
    rwa [bodies_append, hbodies, List.nil_append]

theorem Settles.imp (h : Settles whole journal result) (himp : ∀ pieces, whole pieces → whole' pieces) :
    Settles whole' journal result := by
  rcases h with hquiet | ⟨hends, res, hres, hnone | ⟨hmem, herror, hwhole⟩⟩
  · exact .inl hquiet
  · exact .inr ⟨hends, res, hres, .inl hnone⟩
  · exact .inr ⟨hends, res, hres, .inr ⟨hmem, herror, himp _ hwhole⟩⟩

theorem Reads.settles_front (hreads : Reads front) (hquiet : Quiet front) (h : Settles whole journal result) :
    Settles whole (front ++ journal) result := h.append hquiet hreads.lastChunk hreads.bodies

theorem settles_nil (herror : ∀ res ∈ result, res.error ≠ .canceled) : Settles whole [] result :=
  .inl ⟨quiet_nil, herror⟩

theorem Obeys.settles {halt : Halt} (h : Obeys journal halt.Canceled) (hreads : Reads journal) (info : ResponseInfo)
    (bytes : ℕ) : Settles whole journal ((halt.attempt info bytes).map Attempt.result) := by
  rcases h with ⟨hquiet, hnot⟩ | ⟨hends, message, rfl⟩
  · refine .inl ⟨hquiet, ?_⟩
    cases halt with
    | waiting => simp [Halt.attempt]
    | failed error message =>
      intro res hres hcanceled
      cases hres
      exact hnot ⟨message, by rw [← hcanceled]⟩
  · exact .inr ⟨hends, _, rfl, .inl ⟨hreads.lastChunk, rfl⟩⟩

theorem Verdict.settles {pumped : Pumped σ ρ} (h : Verdict journal pumped.outcome) (info : ResponseInfo)
    (hwhole : .lastChunk ∈ journal → (∃ a, pumped.outcome = .ok a) → whole (bodies journal)) :
    Settles whole journal ((conclude info pumped).1.map Attempt.result) := by
  rcases h with ⟨hquiet, hnot⟩ | ⟨hends, hnone, halt, houtcome, message, rfl⟩ | ⟨hends, hmem, a, houtcome⟩
  · refine .inl ⟨hquiet, ?_⟩
    unfold conclude
    cases houtcome : pumped.outcome with
    | ok a => simp
    | error halt =>
      cases halt with
      | waiting => simp [Halt.attempt]
      | failed error message =>
        intro res hres hcanceled
        cases hres
        exact hnot ⟨_, houtcome, message, by rw [← hcanceled]⟩
  · have hresult : (conclude info pumped).1.map Attempt.result =
        some { error := .canceled, message, response := info, bytes := pumped.written } := by
      rw [conclude, houtcome]
      rfl
    exact .inr ⟨hends, _, hresult, .inl ⟨hnone, rfl⟩⟩
  · have hresult : (conclude info pumped).1.map Attempt.result =
        some { response := info, bytes := pumped.written } := by
      rw [conclude, houtcome]
      rfl
    exact .inr ⟨hends, _, hresult, .inr ⟨hmem, rfl, hwhole hmem ⟨a, houtcome⟩⟩⟩

end Settles

def Source.Codes (source : Source) (pieces : List Bytes) : Prop :=
  ∃ line headers rest, source.Leads line headers rest ∧
    headers.contains transferEncoding (ascii "chunked") = true ∧ Coded ReadSize Short rest.data pieces.flatten

theorem bodyJournal_settles (head : Head) (r : Reader) (f : BodyFn σ) (s : σ) :
    Settles (fun pieces => head.chunked = true ∧ Coded ReadSize Short r.source.data pieces.flatten)
      (bodyJournal head r f s)
      ((if head.chunked then conclude head.info (pumpChunked r f s 0)
        else conclude head.info (pumpPlain r head.contentLength f s 0)).1.map Attempt.result) := by
  unfold bodyJournal
  by_cases hchunked : head.chunked = true
  · rw [if_pos hchunked, if_pos hchunked]
    apply (pumpChunked_verdict r f s 0).settles head.info
    rintro - ⟨a, hok⟩
    exact ⟨hchunked, pumpChunked_bodies r f s 0 hok⟩
  · rw [if_neg hchunked, if_neg hchunked]
    apply ((pumpPlain_obeys r head.contentLength f s 0).verdict
      (pumpPlainJournal_lastChunk r _ f s 0)).settles head.info
    intro hmem
    exact absurd hmem (pumpPlainJournal_lastChunk r head.contentLength f s 0)

theorem inspectHead_not_canceled {url : Url} {request : Request} {info : ResponseInfo} {headers : Headers}
    {attempt : Attempt} (h : inspectHead url request info headers = .error attempt) :
    attempt.result.error ≠ .canceled := by
  unfold inspectHead at h
  dsimp only at h
  split_ifs at h <;> cases h <;> simp

theorem exchange_settles (url : Url) (request : Request) (calls : Callbacks σ) (r : Reader) (s : σ) :
    Settles r.source.Codes (exchangeJournal url request calls r s)
      ((exchange url request calls r s).1.map Attempt.result) := by
  unfold exchangeJournal exchange
  cases hline : r.readLine with
  | error halt =>
    have hobeys := r.readLine_obeys
    rw [hline, canceled_error] at hobeys
    rw [List.append_nil]
    exact hobeys.settles r.readLine_reads {} 0
  | ok p =>
    obtain ⟨line, r1⟩ := p
    apply r.readLine_reads.settles_front (r.readLine_obeys.quiet (by simp [hline]))
    dsimp only
    by_cases hvalid : (parseStatusLine line).1 = false
    · rw [if_pos hvalid, if_pos hvalid]
      exact settles_nil (by simp [notHttp])
    · rw [if_neg hvalid, if_neg hvalid]
      cases hheaders : readHeaders r1 {} with
      | error halt =>
        have hobeys := readHeaders_obeys r1 {}
        rw [hheaders, canceled_error] at hobeys
        rw [List.append_nil]
        exact hobeys.settles (readHeadersJournal_reads r1 {}) _ 0
      | ok q =>
        obtain ⟨headers, r2⟩ := q
        apply (readHeadersJournal_reads r1 {}).settles_front ((readHeaders_obeys r1 {}).quiet (by simp [hheaders]))
        dsimp only
        cases hhead : inspectHead url request
            { statusCode := (parseStatusLine line).2.1, reason := (parseStatusLine line).2.2 } headers with
        | error attempt => exact settles_nil (by simpa using inspectHead_not_canceled hhead)
        | ok head =>
          dsimp only
          apply Settles.append (by split_ifs <;> simp [Quiet]) (by split_ifs <;> simp) (by split_ifs <;> rfl)
          rcases calls.headers s head.info with ⟨_ | _, t⟩
          · exact settles_nil (by simp [refusedByCaller])
          · apply (bodyJournal_settles head r2 calls.onBody t).imp
            rintro pieces ⟨hchunked, hcoded⟩
            have hsource := readHeaders_source r1 {}
            rw [hheaders] at hsource
            refine ⟨line, headers, r2.source, ⟨r1.source, Reader.readLine_ok hline, hsource.symm⟩, ?_, hcoded⟩
            rw [← hchunked, (inspectHead_framing hhead).2]
            rfl

theorem conclude_redirectTo {pumped : Pumped σ ρ} {info : ResponseInfo} {attempt : Attempt}
    (h : (conclude info pumped).1 = some attempt) : attempt.redirectTo = [] := by
  unfold conclude at h
  cases houtcome : pumped.outcome with
  | ok a =>
    rw [houtcome] at h
    cases h
    rfl
  | error halt =>
    rw [houtcome] at h
    exact Halt.attempt_redirectTo h

theorem exchange_redirect {url : Url} {request : Request} {calls : Callbacks σ} {r : Reader} {s : σ} {attempt : Attempt}
    (h : (exchange url request calls r s).1 = some attempt) (hto : attempt.redirectTo ≠ []) :
    Reads (exchangeJournal url request calls r s) ∧ Quiet (exchangeJournal url request calls r s) := by
  unfold exchange at h
  unfold exchangeJournal
  cases hline : r.readLine with
  | error halt =>
    rw [hline] at h
    exact absurd (Halt.attempt_redirectTo h) hto
  | ok p =>
    obtain ⟨line, r1⟩ := p
    have hfirst : Quiet r.readLineJournal := r.readLine_obeys.quiet (by simp [hline])
    rw [hline] at h
    dsimp only at h ⊢
    by_cases hvalid : (parseStatusLine line).1 = false
    · rw [if_pos hvalid] at h
      cases h
      exact absurd rfl hto
    · rw [if_neg hvalid] at h ⊢
      cases hheaders : readHeaders r1 {} with
      | error halt =>
        rw [hheaders] at h
        exact absurd (Halt.attempt_redirectTo h) hto
      | ok q =>
        obtain ⟨headers, r2⟩ := q
        have hsecond : Quiet (readHeadersJournal r1 {}) := (readHeaders_obeys r1 {}).quiet (by simp [hheaders])
        rw [hheaders] at h
        dsimp only at h ⊢
        cases hhead : inspectHead url request
            { statusCode := (parseStatusLine line).2.1, reason := (parseStatusLine line).2.2 } headers with
        | error attempt' =>
          rw [List.append_nil, reads_append, quiet_append]
          exact ⟨⟨r.readLine_reads, readHeadersJournal_reads r1 {}⟩, hfirst, hsecond⟩
        | ok head =>
          rw [hhead] at h
          dsimp only at h
          rcases hc : calls.headers s head.info with ⟨_ | _, t⟩
          · rw [hc] at h
            cases h
            exact absurd rfl hto
          · rw [hc] at h
            dsimp only at h
            split_ifs at h
            · exact absurd (conclude_redirectTo h) hto
            · exact absurd (conclude_redirectTo h) hto

def Opened.Codes (opened : Opened) (polls : Bool) (idleTimeoutMs : ℤ) (pieces : List Bytes) : Prop :=
  ∃ conn, opened = .connected conn ∧ (Source.ofTicks polls idleTimeoutMs conn.ticks).Codes pieces

theorem settles_connect {whole : List Bytes → Prop} {result : Option Result} (h : Settles whole journal result) :
    Settles whole (.connect :: journal) result := by
  rw [← List.singleton_append]
  exact h.append (by simp [Quiet]) (by simp) rfl

theorem performOnce_settles (url : Url) (request : Request) (calls : Callbacks σ) (polls : Bool) (opened : Opened)
    (s : σ) :
    Settles (opened.Codes polls request.idleTimeoutMs) (performOnceJournal url request calls polls opened s)
      ((performOnce url request calls polls opened s).1.map Attempt.result) := by
  apply settles_connect
  cases opened with
  | refused error message failed =>
    apply settles_nil
    intro res hres
    cases hres
    rcases failed with rfl | rfl <;> simp
  | connected conn =>
    rw [performOnce]
    dsimp only
    cases hsent : sendAll (requestHead url request).length conn.sends with
    | error halt =>
      cases halt with
      | waiting => exact settles_nil (by simp)
      | failed error message => exact settles_nil (by simp)
    | ok u =>
      have hsettles := exchange_settles url request calls (Reader.new conn.ticks polls request.idleTimeoutMs) s
      rw [Reader.new_source] at hsettles
      exact hsettles.imp (fun pieces hcodes => ⟨conn, rfl, hcodes⟩)

theorem performOnce_redirect {url : Url} {request : Request} {calls : Callbacks σ} {polls : Bool} {opened : Opened}
    {s : σ} {attempt : Attempt} (h : (performOnce url request calls polls opened s).1 = some attempt)
    (hto : attempt.redirectTo ≠ []) :
    ∃ rest, performOnceJournal url request calls polls opened s = [.connect] ++ rest ∧ Reads rest ∧ Quiet rest := by
  refine ⟨_, rfl, ?_⟩
  cases opened with
  | refused error message failed =>
    cases h
    exact absurd rfl hto
  | connected conn =>
    rw [performOnce] at h
    dsimp only at h ⊢
    cases hsent : sendAll (requestHead url request).length conn.sends with
    | error halt =>
      rw [hsent] at h
      cases halt <;> cases h
      exact absurd rfl hto
    | ok u =>
      rw [hsent] at h
      exact exchange_redirect h hto

theorem getFrom_settles (request : Request) (calls : Callbacks σ) (polls : Bool) (net : Net) (left hop : ℕ)
    (current : Bytes) (s : σ) :
    Settles (fun pieces => ∃ hop, (net.opened hop).Codes polls request.idleTimeoutMs pieces)
      (getFromJournal request calls polls net hop current left s)
      (getFrom request calls polls net hop current left s).1 := by
  induction left generalizing hop current s with
  | zero => exact settles_nil (by simp [getFrom])
  | succ left ih =>
    rw [getFromJournal, getFrom]
    cases hurl : parseUrl current with
    | none => exact settles_nil (by simp)
    | some url =>
      dsimp only
      by_cases hc : polls && net.canceled hop
      · obtain ⟨hpolls, hyes⟩ := Bool.and_eq_true_iff.mp hc
        simp only [hpolls, hyes, if_true, Bool.and_self, List.append_nil]
        exact .inr ⟨⟨[], rfl, quiet_nil⟩, _, rfl, .inl ⟨by simp, rfl⟩⟩
      · have hpoll : Quiet (if polls then [.poll (net.canceled hop)] else []) := by
          split_ifs with hpolls
          · simp_all [Quiet]
          · exact quiet_nil
        rw [if_neg hc, if_neg hc]
        apply Settles.append hpoll (by split_ifs <;> simp) (by split_ifs <;> rfl)
        have hsettles := performOnce_settles url { request with url := current } calls polls (net.opened hop) s
        rcases hp : performOnce url { request with url := current } calls polls (net.opened hop) s with ⟨_ | attempt, t⟩
        · rw [hp] at hsettles
          rw [List.append_nil]
          exact hsettles.imp (fun pieces hcodes => ⟨hop, hcodes⟩)
        · dsimp only
          by_cases hto : attempt.redirectTo = []
          · rw [hp] at hsettles
            rw [if_pos hto, if_pos hto, List.append_nil]
            exact hsettles.imp (fun pieces hcodes => ⟨hop, hcodes⟩)
          · obtain ⟨rest, hrest, hreads, hquiet⟩ := performOnce_redirect (by rw [hp]) hto
            rw [if_neg hto, if_neg hto, hrest]
            apply Settles.append
            · exact quiet_append.mpr ⟨by simp [Quiet], hquiet⟩
            · simp [hreads.lastChunk]
            · rw [bodies_append, hreads.bodies]
              rfl
            · exact ih (hop + 1) attempt.redirectTo t

theorem Ends.first {rest : List Entry} (h : Ends (front ++ .poll true :: rest)) : rest = [] := by
  obtain ⟨before, hbefore, hquiet⟩ := h
  rcases List.eq_nil_or_concat rest with rfl | ⟨init, last, rfl⟩
  · rfl
  · rw [List.concat_eq_append, ← List.cons_append, ← List.append_assoc] at hbefore
    have hfront := (List.append_inj' hbefore rfl).1
    rw [← hfront] at hquiet
    exact absurd (by simp) hquiet

theorem get_canceled (request : Request) (calls : Callbacks σ) (polls : Bool) (net : Net) (s : σ) :
    (get request calls polls net s).2 = replay calls (getJournal request calls polls net s) s ∧
      (∀ front rest, getJournal request calls polls net s = front ++ .poll true :: rest →
        rest = [] ∧ (get request calls polls net s).2 = replay calls front s ∧
          ∃ result, (get request calls polls net s).1 = some result ∧
            (.lastChunk ∉ front → result.error = .canceled) ∧
            (.lastChunk ∈ front → result.error = .ok ∧
              ∃ hop, (net.opened hop).Codes polls request.idleTimeoutMs (bodies front))) ∧
      ∀ result, (get request calls polls net s).1 = some result → result.error = .canceled →
        .poll true ∈ getJournal request calls polls net s := by
  have hsettles : Settles _ (getJournal request calls polls net s) (get request calls polls net s).1 :=
    getFrom_settles request calls polls net (request.maxRedirects + 1) 0 request.url s
  have hreplay := get_replay request calls polls net s
  refine ⟨hreplay, ?_, ?_⟩
  · intro front rest hjournal
    rw [hjournal] at hsettles hreplay
    rcases hsettles with ⟨hquiet, -⟩ | ⟨hends, result, hresult, hcases⟩
    · exact absurd (by simp) hquiet
    · have hrest := hends.first
      subst hrest
      rw [replay_append] at hreplay
      refine ⟨rfl, hreplay, result, hresult, ?_⟩
      have hbodies : bodies (front ++ [.poll true]) = bodies front := by
        rw [bodies_append]
        exact List.append_nil _
      rw [hbodies] at hcases
      rcases hcases with ⟨hnone, herror⟩ | ⟨hmem, herror, hcodes⟩
      · exact ⟨fun _ => herror, fun hmem => absurd (List.mem_append_left _ hmem) hnone⟩
      · refine ⟨fun hnone => ?_, fun _ => ⟨herror, hcodes⟩⟩
        simp [hnone] at hmem
  · intro result hresult herror
    rcases hsettles with ⟨-, hnot⟩ | ⟨⟨front, hjournal, -⟩, -⟩
    · exact absurd herror (hnot result hresult)
    · rw [hjournal]
      simp

theorem get_canceled_trailers :
    let segment : Segment := ⟨ascii "HTTP/1.1 200 OK\r\nTransfer-Encoding: chunked\r\n\r\n2\r\nhi\r\n0\r\n",
      by decide +kernel, by decide +kernel⟩
    let net : Net :=
      ⟨fun _ => .connected ⟨[.wrote 4096], [⟨false, .data segment⟩, ⟨true, .closed⟩]⟩, fun _ => false⟩
    let calls : Callbacks (List Bytes) := ⟨none, fun pieces piece => (true, pieces ++ [piece])⟩
    let got := get { url := ascii "http://h/" } calls true net []
    got.2 = [ascii "hi"] ∧ ∃ result, got.1 = some result ∧ result.error = .ok ∧
      ∃ hop, (net.opened hop).Codes true 30000 [ascii "hi"] := by
  intro segment net calls got
  have hjournal : getJournal { url := ascii "http://h/" } calls true net [] =
      [.poll false, .connect, .poll false, .recv, .body (ascii "hi"), .lastChunk] ++ .poll true :: [] := by
    decide +kernel
  obtain ⟨-, hsink, result, hresult, -, hlast⟩ :=
    (get_canceled { url := ascii "http://h/" } calls true net []).2.1 _ _ hjournal
  obtain ⟨herror, hcodes⟩ := hlast (by simp)
  exact ⟨hsink, result, hresult, herror, hcodes⟩

end BinderDownload.Http
