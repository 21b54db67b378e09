import BinderDownload.Http.Segmentation
import BinderDownload.Http.Truncation

/-!
A peer that does something and then nothing more: it takes no byte of the request and sends none of
the response, while the clock goes on.
-/

namespace BinderDownload.Http

open Text

variable {σ : Type}

/-- The answers before the stall, and the polls and the clock during it. -/
structure Stall where
  sends : List Send
  ticks : List Tick
  canceled : ℕ → Bool
  clock : ℕ → ℤ
  advances : StrictMono clock

/-- Where a run waits when no more bytes come. -/
inductive Phase
  | sending
  | head
  | chunkHeader
  | body
  | trailers
  | done
  deriving DecidableEq

def Send.bytes : Send → ℕ
  | .wrote n => n
  | .again => 0
  | .broken _ => 0

theorem sendAll_waiting (len : ℕ) (sends : List Send) :
    sendAll len sends = .error .waiting ↔
      (sends.map Send.bytes).sum < len ∧ ∀ error, .broken error ∉ sends := by
  fun_induction sendAll len sends with
  | case1 sends => simp
  | case2 len => simp
  | case3 len n sends ih =>
    have hn := n.pos
    rw [ih]
    simp only [List.map_cons, List.sum_cons, Send.bytes, List.mem_cons, reduceCtorEq, false_or]
    constructor
    · rintro ⟨hlt, hno⟩
      exact ⟨by omega, hno⟩
    · rintro ⟨hlt, hno⟩
      exact ⟨by omega, hno⟩
  | case4 len sends ih =>
    rw [ih]
    simp [Send.bytes]
  | case5 len error sends =>
    simp only [Except.error.injEq, reduceCtorEq, false_iff, not_and]
    intro _ hno
    exact hno error List.mem_cons_self

theorem sendAll_append {len : ℕ} {sends : List Send} (more : List Send) (h : sendAll len sends ≠ .error .waiting) :
    sendAll len (sends ++ more) = sendAll len sends := by
  fun_induction sendAll len sends with
  | case1 sends => simp [sendAll]
  | case2 len => exact absurd rfl h
  | case3 len n sends ih => exact ih h
  | case4 len sends ih => exact ih h
  | case5 len error sends => rfl

def Phase.OfBody : Phase → Prop
  | .sending => False
  | .head => False
  | _ => True

theorem Phase.OfBody.open {phase : Phase} (h : phase.OfBody) (htrailers : phase ≠ .trailers) (hdone : phase ≠ .done) :
    phase = .chunkHeader ∨ phase = .body := by
  cases phase with
  | sending => exact h.elim
  | head => exact h.elim
  | chunkHeader => exact .inl rfl
  | body => exact .inr rfl
  | trailers => exact absurd rfl htrailers
  | done => exact absurd rfl hdone

namespace Source

def abandoned (source : Source) (halt : Halt) : Source := ⟨source.data, .halted halt⟩

def chunkPhase (source : Source) : Phase :=
  match _h1 : source.readLine with
  | .error .waiting => .chunkHeader
  | .error (.failed _ _) => .done
  | .ok (line, rest1) =>
    let size := strtoll (Http.chunkHeader line) 16
    if size.2 = 0 ∨ size.1 < 0 then .done
    else if size.1 = 0 then (if rest1.trailers = .ok () then .done else .trailers)
    else
      match _h2 : (rest1.plain size.1 0).2 with
      | .error .waiting => .body
      | .error (.failed _ _) => .done
      | .ok rest2 =>
        match _h3 : rest2.readLine with
        | .error .waiting => .body
        | .error (.failed _ _) => .done
        | .ok (_, rest3) => chunkPhase rest3
termination_by source.data.length
decreasing_by
  have h1 := readLine_length _h1
  have h2 := plain_length _ _ _ _ _h2
  have h3 := readLine_length _h3
  omega

def bodyPhase (source : Source) (head : Head) : Phase :=
  if head.chunked then source.chunkPhase
  else match (source.plain head.contentLength 0).2 with
    | .error .waiting => .body
    | _ => .done

def phase (url : Url) (request : Request) (source : Source) : Phase :=
  match source.readLine with
  | .error .waiting => .head
  | .error (.failed _ _) => .done
  | .ok (line, rest1) =>
    if (parseStatusLine line).1 = false then .done
    else match rest1.readHeaders {} with
      | .error .waiting => .head
      | .error (.failed _ _) => .done
      | .ok (headers, rest2) =>
        match inspectHead url request { statusCode := (parseStatusLine line).2.1
                                        reason := (parseStatusLine line).2.2 } headers with
        | .error _ => .done
        | .ok head => rest2.bodyPhase head

theorem chunkPhase_ofBody (source : Source) : source.chunkPhase.OfBody := by
  fun_induction chunkPhase source with
  | case10 source line rest h size hbad hz rest2 hd line' rest3 he ih => exact ih
  | _ => trivial

theorem bodyPhase_ofBody (source : Source) (head : Head) : (source.bodyPhase head).OfBody := by
  unfold bodyPhase
  split_ifs
  · exact source.chunkPhase_ofBody
  · split <;> trivial

theorem chunkPhase_returns {source : Source} (hs : source.Returns) : source.chunkPhase = .done := by
  fun_induction chunkPhase source with
  | case1 source h => exact absurd rfl (readLine_error hs h)
  | case2 source e m h => rfl
  | case3 source line rest h size hbad => rfl
  | case4 source line rest h size hbad hz ht => rfl
  | case5 source line rest h size hbad hz ht => exact absurd (trailers_returns rest (readLine_returns hs h)) ht
  | case6 source line rest h size hbad hz hd =>
    have hplain := plain_returns size.1 0 (readLine_returns hs h)
    rw [hd] at hplain
    exact absurd rfl hplain
  | case7 source line rest h size hbad hz e m hd => rfl
  | case8 source line rest h size hbad hz rest2 hd he =>
    have hplain := plain_returns size.1 0 (readLine_returns hs h)
    rw [hd] at hplain
    exact absurd rfl (readLine_error hplain he)
  | case9 source line rest h size hbad hz rest2 hd e m he => rfl
  | case10 source line rest h size hbad hz rest2 hd line' rest3 he ih =>
    have hplain := plain_returns size.1 0 (readLine_returns hs h)
    rw [hd] at hplain
    exact ih (readLine_returns hplain he)

theorem bodyPhase_returns {source : Source} (head : Head) (hs : source.Returns) : source.bodyPhase head = .done := by
  unfold bodyPhase
  split_ifs
  · exact chunkPhase_returns hs
  · have hplain := plain_returns head.contentLength 0 hs
    split
    · rename_i h
      rw [h] at hplain
      exact absurd rfl hplain
    · rfl

theorem phase_returns {source : Source} (url : Url) (request : Request) (hs : source.Returns) :
    source.phase url request = .done := by
  unfold phase
  split
  · rename_i h
    exact absurd rfl (readLine_error hs h)
  · rfl
  · rename_i line rest1 h
    have hheaders := readHeaders_returns rest1 {} (readLine_returns hs h)
    split_ifs
    · rfl
    · split
      · rename_i hr
        rw [hr] at hheaders
        exact absurd rfl hheaders
      · rfl
      · rename_i headers rest2 hr
        rw [hr] at hheaders
        split
        · rfl
        · exact bodyPhase_returns _ hheaders

section Abandoned

variable {source rest : Source} {line : Bytes} (halt : Halt)

theorem lineFrom_abandoned (line data : Bytes) (h : lineFrom line data (.halted .waiting) = .error .waiting) :
    lineFrom line data (.halted halt) = .error halt := by
  induction data generalizing line with
  | nil => rfl
  | cons c cs ih =>
    unfold lineFrom at h ⊢
    split_ifs at h ⊢
    · cases h
    · exact ih _ h

theorem readLine_abandoned (hstop : source.stop = .halted .waiting) (h : source.readLine = .error .waiting) :
    (source.abandoned halt).readLine = .error halt := by
  rw [readLine, hstop] at h
  exact lineFrom_abandoned halt [] source.data h

theorem readLine_abandoned_ok (hstop : source.stop = .halted .waiting) (h : source.readLine = .ok (line, rest)) :
    rest.stop = .halted .waiting ∧ (source.abandoned halt).readLine = .ok (line, rest.abandoned halt) := by
  have hfault : source.stop.Fault := by
    rw [hstop]
    trivial
  have hcut := lineFrom_cut [] source.data [] (.halted halt) hfault
  rw [← readLine, h] at hcut
  simp only [List.append_nil] at hcut
  exact ⟨hcut.1.trans hstop, hcut.2⟩

theorem readHeaders_abandoned {headers : Headers} (hstop : source.stop = .halted .waiting) :
    match source.readHeaders headers with
    | .error .waiting => (source.abandoned halt).readHeaders headers = .error halt
    | .error (.failed _ _) => True
    | .ok (headers', rest) => rest.stop = .halted .waiting ∧
        (source.abandoned halt).readHeaders headers = .ok (headers', rest.abandoned halt) := by
  fun_induction readHeaders source headers with
  | case1 source headers halt' h =>
    cases halt' with
    | waiting =>
      have hend : (source.abandoned halt).readHeaders headers = .error halt := by
        rw [readHeaders]
        split <;> rename_i h' <;> rw [readLine_abandoned halt hstop h] at h' <;> cases h'
        rfl
      exact hend
    | failed error message => trivial
  | case2 source headers rest h =>
    obtain ⟨hrest, hline⟩ := readLine_abandoned_ok halt hstop h
    refine ⟨hrest, ?_⟩
    rw [readHeaders]
    split <;> rename_i h' <;> rw [hline] at h' <;> cases h'
    rfl
  | case3 source headers line rest h hl hc ih =>
    obtain ⟨hrest, hline⟩ := readLine_abandoned_ok halt hstop h
    have hstep : (source.abandoned halt).readHeaders headers = (rest.abandoned halt).readHeaders headers := by
      rw [readHeaders]
      split <;> rename_i h' <;> rw [hline] at h' <;> cases h'
      simp only [hl, if_false, hc]
    rw [hstep]
    exact ih hrest
  | case4 source headers line rest h hl colon hc hk => trivial
  | case5 source headers line rest h hl colon hc hk ih =>
    obtain ⟨hrest, hline⟩ := readLine_abandoned_ok halt hstop h
    have hstep : (source.abandoned halt).readHeaders headers =
        (rest.abandoned halt).readHeaders (headers.add (trim (line.take colon)) (trim (line.drop (colon + 1)))) := by
      rw [readHeaders]
      split <;> rename_i h' <;> rw [hline] at h' <;> cases h'
      simp only [hl, if_false, hc, hk]
    rw [hstep]
    exact ih hrest

theorem plain_abandoned (hstop : source.stop = .halted .waiting) (want : ℤ) (written : ℕ) :
    match (source.plain want written).2 with
    | .error _ => ((source.abandoned halt).plain want written).2 = .error halt
    | .ok rest => rest.stop = .halted .waiting ∧
        ((source.abandoned halt).plain want written).2 = .ok (rest.abandoned halt) := by
  obtain ⟨data, stop⟩ := source
  simp only at hstop
  subst hstop
  by_cases hneg : want < 0
  · simp only [plain, abandoned, hneg, if_true]
  · by_cases hle : (want - (written : ℤ)).toNat ≤ data.length
    · simp only [plain, abandoned, hneg, hle, if_false, if_true, and_self]
    · simp only [plain, abandoned, hneg, hle, if_false]

variable (error : Error) (message : Bytes)

theorem trailers_abandoned : (source.abandoned (.failed error message)).trailers = .ok () :=
  trailers_returns _ (by simp [Returns, abandoned])

theorem chunked_abandoned (hstop : source.stop = .halted .waiting) :
    (source.chunkPhase = .chunkHeader ∨ source.chunkPhase = .body →
        (source.abandoned (.failed error message)).chunked.2 = .error (.failed error message)) ∧
      (source.chunkPhase = .trailers → (source.abandoned (.failed error message)).chunked.2 = .ok ()) := by
  fun_induction chunkPhase source with
  | case1 source h =>
    rw [chunked_error (readLine_abandoned (.failed error message) hstop h)]
    exact ⟨fun _ => rfl, Phase.noConfusion⟩
  | case2 source e m h => simp
  | case3 source line rest h size hbad => simp
  | case4 source line rest h size hbad hz ht => simp
  | case5 source line rest h size hbad hz ht =>
    obtain ⟨-, hline⟩ := readLine_abandoned_ok (.failed error message) hstop h
    rw [chunked_last hline (fun h => hbad (.inl h)) hz, trailers_abandoned]
    simp
  | case6 source line rest h size hbad hz hd =>
    obtain ⟨hrest, hline⟩ := readLine_abandoned_ok (.failed error message) hstop h
    have hpos : 0 < size.1 := by omega
    have hplain := plain_abandoned (.failed error message) hrest size.1 0
    rw [hd] at hplain
    rw [chunked_cut hline (fun h => hbad (.inl h)) hpos hplain]
    exact ⟨fun _ => rfl, Phase.noConfusion⟩
  | case7 source line rest h size hbad hz e m hd => simp
  | case8 source line rest h size hbad hz rest2 hd he =>
    obtain ⟨hrest, hline⟩ := readLine_abandoned_ok (.failed error message) hstop h
    have hpos : 0 < size.1 := by omega
    have hplain := plain_abandoned (.failed error message) hrest size.1 0
    rw [hd] at hplain
    rw [chunked_unended hline (fun h => hbad (.inl h)) hpos hplain.2
      (readLine_abandoned (.failed error message) hplain.1 he)]
    exact ⟨fun _ => rfl, Phase.noConfusion⟩
  | case9 source line rest h size hbad hz rest2 hd e m he => simp
  | case10 source line rest h size hbad hz rest2 hd line' rest3 he ih =>
    obtain ⟨hrest, hline⟩ := readLine_abandoned_ok (.failed error message) hstop h
    have hpos : 0 < size.1 := by omega
    have hplain := plain_abandoned (.failed error message) hrest size.1 0
    rw [hd] at hplain
    obtain ⟨hrest3, hend⟩ := readLine_abandoned_ok (.failed error message) hplain.1 he
    rw [chunked_chunk hline (fun h => hbad (.inl h)) hpos hplain.2 hend]
    exact ih hrest3

theorem body_abandoned (hstop : source.stop = .halted .waiting) (head : Head) :
    (source.bodyPhase head = .chunkHeader ∨ source.bodyPhase head = .body →
        ((source.abandoned (.failed error message)).body head).2 = .error (.failed error message)) ∧
      (source.bodyPhase head = .trailers → ((source.abandoned (.failed error message)).body head).2 = .ok ()) := by
  by_cases hc : head.chunked = true
  · simp only [bodyPhase, body, hc, if_true]
    exact chunked_abandoned error message hstop
  · have hplain := plain_abandoned (.failed error message) hstop head.contentLength 0
    simp only [bodyPhase, body, hc]
    cases hd : (source.plain head.contentLength 0).2 with
    | error halt =>
      rw [hd] at hplain
      cases halt with
      | waiting => simp [hplain, Except.map]
      | failed e m => simp
    | ok rest => simp

theorem respond_abandoned (hstop : source.stop = .halted .waiting) (url : Url) (request : Request)
    (herror : (Halt.failed error message).Fault) {attempt : Attempt}
    (h : ((source.abandoned (.failed error message)).respond url request).attempt = some attempt) :
    (source.phase url request ≠ .trailers → source.phase url request ≠ .done → attempt.result.error ≠ .ok) ∧
      (source.phase url request = .trailers → attempt.result.error = .ok) := by
  cases hline : source.readLine with
  | error halt =>
    cases halt with
    | waiting =>
      simp only [respond, readLine_abandoned (.failed error message) hstop hline] at h
      simp only [phase, hline]
      exact ⟨fun _ _ => Halt.attempt_error herror h, Phase.noConfusion⟩
    | failed e m => simp [phase, hline]
  | ok p =>
    obtain ⟨line, rest1⟩ := p
    obtain ⟨hrest1, hline1⟩ := readLine_abandoned_ok (.failed error message) hstop hline
    by_cases hvalid : (parseStatusLine line).1 = false
    · simp [phase, hline, hvalid]
    · have hheaders := @readHeaders_abandoned rest1 (.failed error message) {} hrest1
      cases hread : rest1.readHeaders {} with
      | error halt =>
        cases halt with
        | waiting =>
          rw [hread] at hheaders
          simp only [respond, hline1, hvalid, hheaders] at h
          simp only [phase, hline, hvalid, hread]
          exact ⟨fun _ _ => Halt.attempt_error herror h, Phase.noConfusion⟩
        | failed e m => simp [phase, hline, hvalid, hread]
      | ok q =>
        obtain ⟨headers, rest2⟩ := q
        rw [hread] at hheaders
        rw [respond_proceed url request hline1 (by simpa using hvalid) hheaders.2] at h
        simp only [phase, hline, hvalid, hread]
        cases hhead : inspectHead url request { statusCode := (parseStatusLine line).2.1
                                                reason := (parseStatusLine line).2.2 } headers with
        | error attempt' => simp
        | ok head =>
          obtain ⟨hopen, hlast⟩ := body_abandoned error message hheaders.1 head
          simp only [hhead, proceed] at h
          simp only
          constructor
          · intro htrailers hdone
            have hphase := (rest2.bodyPhase_ofBody head).open htrailers hdone
            rw [hopen hphase] at h
            exact Halt.attempt_error herror h
          · intro htrailers
            rw [hlast htrailers] at h
            simp only [ending, Option.some.injEq] at h
            rw [← h]

end Abandoned

end Source

section Retries

variable {polls : Bool} {idleTimeoutMs : ℤ} {ticks : List Tick}

theorem Source.ofTicks_ended (more : List Tick)
    (h : (ofTicks polls idleTimeoutMs ticks).stop ≠ .halted .waiting) :
    ofTicks polls idleTimeoutMs (ticks ++ more) = ofTicks polls idleTimeoutMs ticks := by
  induction ticks with
  | nil => exact absurd rfl h
  | cons t ts ih =>
    rw [List.cons_append]
    unfold ofTicks at h ⊢
    split_ifs at h ⊢ with hc
    · rfl
    · cases ht : t.recv with
      | data segment =>
        simp only [ht] at h ⊢
        rw [ih h]
      | closed => rfl
      | again elapsedMs =>
        simp only [ht] at h ⊢
        split_ifs at h ⊢ with he
        · rfl
        · exact ih h
      | broken error => rfl

theorem Source.ofTicks_open (more : List Tick)
    (h : (ofTicks polls idleTimeoutMs ticks).stop = .halted .waiting) :
    ofTicks polls idleTimeoutMs (ticks ++ more) =
      ⟨(ofTicks polls idleTimeoutMs ticks).data ++ (ofTicks polls idleTimeoutMs more).data,
        (ofTicks polls idleTimeoutMs more).stop⟩ := by
  induction ticks with
  | nil => rfl
  | cons t ts ih =>
    by_cases hc : (polls && t.canceled) = true
    · rw [ofTicks, if_pos hc] at h
      cases h
    · cases ht : t.recv with
      | data segment =>
        simp only [ofTicks, if_neg hc, ht] at h
        simp only [List.cons_append, ofTicks, if_neg hc, ht, ih h, List.append_assoc]
      | closed => simp [ofTicks, hc, ht] at h
      | again elapsedMs =>
        by_cases he : idleTimeoutMs ≤ elapsedMs
        · simp [ofTicks, hc, ht, he] at h
        · simp only [ofTicks, if_neg hc, ht, if_neg he] at h
          simp only [List.cons_append, ofTicks, if_neg hc, ht, if_neg he, ih h]
      | broken error => simp [ofTicks, hc, ht] at h

theorem Source.ofTicks_late (hagain : ∀ t ∈ ticks, ∃ elapsedMs, t.recv = .again elapsedMs)
    (hlate : ∃ t ∈ ticks, ∃ elapsedMs, t.recv = .again elapsedMs ∧ idleTimeoutMs ≤ elapsedMs) :
    ∃ error message, (Halt.failed error message).Fault ∧
      ofTicks polls idleTimeoutMs ticks = ⟨[], .halted (.failed error message)⟩ := by
  induction ticks with
  | nil => simp at hlate
  | cons t ts ih =>
    obtain ⟨elapsedMs, ht⟩ := hagain t List.mem_cons_self
    unfold ofTicks
    by_cases hc : (polls && t.canceled) = true
    · exact ⟨.canceled, [], Error.noConfusion, by rw [if_pos hc]⟩
    · by_cases he : idleTimeoutMs ≤ elapsedMs
      · exact ⟨.io, ascii "timed out waiting for data", Error.noConfusion, by simp only [if_neg hc, ht, if_pos he]⟩
      · simp only [if_neg hc, ht, if_neg he]
        apply ih (fun t' ht' => hagain t' (List.mem_cons_of_mem t ht'))
        obtain ⟨t', hmem, e, ht', hle⟩ := hlate
        rcases List.mem_cons.mp hmem with rfl | hmem
        · rw [ht] at ht'
          cases ht'
          exact absurd hle he
        · exact ⟨t', hmem, e, ht', hle⟩

end Retries

def Callbacks.Accepting (calls : Callbacks σ) : Prop :=
  (∀ s info, (calls.headers s info).1 = true) ∧ ∀ s data, (calls.onBody s data).1 = true

section Deliver

variable {reply : Reply} (pieces : List Bytes) (calls : Callbacks σ) (s : σ)

theorem Reply.deliver_returns (h : reply.attempt.isSome) : (reply.deliver pieces calls s).1.isSome := by
  unfold deliver
  cases reply.announced with
  | none => exact h
  | some info =>
    simp only
    rcases calls.headers s info with ⟨_ | _, t⟩
    · rfl
    · simp only
      split_ifs
      · exact h
      · rfl

theorem Reply.deliver_error (h : ∀ attempt, reply.attempt = some attempt → attempt.result.error ≠ .ok)
    {attempt : Attempt} (hd : (reply.deliver pieces calls s).1 = some attempt) : attempt.result.error ≠ .ok := by
  unfold deliver at hd
  cases ha : reply.announced with
  | none =>
    rw [ha] at hd
    exact h attempt hd
  | some info =>
    simp only [ha] at hd
    rcases hc : calls.headers s info with ⟨_ | _, t⟩
    · simp only [hc, Option.some.injEq] at hd
      rw [← hd]
      exact Error.noConfusion
    · simp only [hc] at hd
      split_ifs at hd
      · exact h attempt hd
      · rw [Option.some.injEq] at hd
        rw [← hd]
        exact Error.noConfusion

theorem Reply.deliver_accepting (h : calls.Accepting) : (reply.deliver pieces calls s).1 = reply.attempt := by
  cases ha : reply.announced with
  | none => simp only [deliver, ha]
  | some info =>
    have hheaders := h.1 s info
    cases hc : calls.headers s info with
    | mk accepted t =>
      rw [hc] at hheaders
      simp only at hheaders
      subst hheaders
      rw [deliver_accepted pieces ha hc, if_pos (feed_accepting calls.onBody h.2 t pieces)]

end Deliver

namespace Stall

variable (stall : Stall)

def stalled (n : ℕ) : List Tick :=
  (List.range n).map (fun i => { canceled := stall.canceled i, recv := .again (stall.clock i) })

def conn (n : ℕ) : Conn where
  sends := stall.sends ++ List.replicate n .again
  ticks := stall.ticks ++ stall.stalled n

def phase (url : Url) (request : Request) (polls : Bool) : Phase :=
  match sendAll (requestHead url request).length stall.sends with
  | .error .waiting => .sending
  | .error (.failed _ _) => .done
  | .ok () => (Source.ofTicks polls request.idleTimeoutMs stall.ticks).phase url request

theorem clock_late (bound : ℤ) : ∃ k, bound ≤ stall.clock k := by
  have hle (n : ℕ) : stall.clock 0 + n ≤ stall.clock n := by
    induction n with
    | zero => simp
    | succ n ih =>
      have := stall.advances n.lt_add_one
      push_cast
      omega
  refine ⟨(bound - stall.clock 0).toNat, ?_⟩
  have := hle (bound - stall.clock 0).toNat
  omega

theorem source_late (request : Request) (polls : Bool) :
    let source := Source.ofTicks polls request.idleTimeoutMs stall.ticks
    ∃ n, ∀ m ≥ n, ∃ error message, (Halt.failed error message).Fault ∧
      Source.ofTicks polls request.idleTimeoutMs (stall.conn m).ticks =
        if source.stop = .halted .waiting then source.abandoned (.failed error message) else source := by
  intro source
  obtain ⟨k, hk⟩ := stall.clock_late request.idleTimeoutMs
  refine ⟨k + 1, fun m hm => ?_⟩
  have hagain : ∀ t ∈ stall.stalled m, ∃ elapsedMs, t.recv = .again elapsedMs := by
    intro t ht
    obtain ⟨i, -, rfl⟩ := List.mem_map.mp ht
    exact ⟨stall.clock i, rfl⟩
  have hlate : ∃ t ∈ stall.stalled m, ∃ elapsedMs, t.recv = .again elapsedMs ∧ request.idleTimeoutMs ≤ elapsedMs :=
    ⟨_, List.mem_map.mpr ⟨k, List.mem_range.mpr hm, rfl⟩, stall.clock k, rfl, hk⟩
  obtain ⟨error, message, hfault, hstalled⟩ := Source.ofTicks_late hagain hlate
  refine ⟨error, message, hfault, ?_⟩
  split_ifs with hopen
  · rw [conn, Source.ofTicks_open _ hopen, hstalled, List.append_nil]
    rfl
  · exact Source.ofTicks_ended _ hopen

theorem sendAll_conn (len m : ℕ) : sendAll len (stall.conn m).sends = sendAll len stall.sends := by
  by_cases hwait : sendAll len stall.sends = .error .waiting
  · rw [hwait, sendAll_waiting]
    obtain ⟨hsum, hno⟩ := (sendAll_waiting len stall.sends).mp hwait
    refine ⟨by simpa [conn, Send.bytes] using hsum, fun error hmem => ?_⟩
    rcases List.mem_append.mp hmem with hmem | hmem
    · exact hno error hmem
    · cases List.eq_of_mem_replicate hmem
  · exact sendAll_append _ hwait

def Ends (url : Url) (request : Request) (calls : Callbacks σ) (polls : Bool) (s : σ) : Prop :=
  ∃ n, ∀ m ≥ n, ∃ attempt,
    (performOnce url request calls polls (.connected (stall.conn m)) s).1 = some attempt ∧
      (stall.phase url request polls ≠ .trailers → stall.phase url request polls ≠ .done →
        attempt.result.error ≠ .ok) ∧
      (stall.phase url request polls = .trailers → calls.Accepting → attempt.result.error = .ok)

theorem ends_sent (url : Url) (request : Request) (calls : Callbacks σ) (polls : Bool) (s : σ)
    (hsent : sendAll (requestHead url request).length stall.sends = .ok ()) : stall.Ends url request calls polls s := by
  obtain ⟨n, hn⟩ := stall.source_late request polls
  refine ⟨n, fun m hm => ?_⟩
  obtain ⟨error, message, hfault, hsource⟩ := hn m hm
  have hphase : stall.phase url request polls =
      (Source.ofTicks polls request.idleTimeoutMs stall.ticks).phase url request := by
    simp only [phase, hsent]
  obtain ⟨pieces, -, -, hdeliver⟩ := performOnce_deliver url request polls (.connected (stall.conn m))
  have hreply := Opened.reply_sent polls ((stall.sendAll_conn _ m).trans hsent)
  rw [hreply, hsource] at hdeliver
  rw [hdeliver calls s, hphase]
  generalize Source.ofTicks polls request.idleTimeoutMs stall.ticks = source at *
  by_cases hopen : source.stop = .halted .waiting
  · rw [if_pos hopen]
    have hreturns := Source.respond_returns url request (source.abandoned (.failed error message))
      (by simp [Source.Returns, Source.abandoned])
    obtain ⟨attempt, hattempt⟩ := Option.isSome_iff_exists.mp (Reply.deliver_returns pieces calls s hreturns)
    refine ⟨attempt, hattempt, fun htrailers hdone => ?_, fun htrailers haccept => ?_⟩
    · apply Reply.deliver_error pieces calls s _ hattempt
      intro attempt' h
      exact (Source.respond_abandoned error message hopen url request hfault h).1 htrailers hdone
    · rw [Reply.deliver_accepting pieces calls s haccept] at hattempt
      exact (Source.respond_abandoned error message hopen url request hfault hattempt).2 htrailers
  · rw [if_neg hopen]
    have hreturns := Source.respond_returns url request source hopen
    obtain ⟨attempt, hattempt⟩ := Option.isSome_iff_exists.mp (Reply.deliver_returns pieces calls s hreturns)
    have hdone := Source.phase_returns url request hopen
    exact ⟨attempt, hattempt, fun _ h => absurd hdone h, fun h => absurd (hdone.symm.trans h) Phase.noConfusion⟩

end Stall

theorem performOnce_stalled (stall : Stall) (url : Url) (request : Request) (calls : Callbacks σ) (polls : Bool)
    (s : σ) :
    stall.Ends url request calls polls s ↔
      (requestHead url request).length ≤ (stall.sends.map Send.bytes).sum ∨ ∃ error, .broken error ∈ stall.sends := by
  have hwaiting := sendAll_waiting (requestHead url request).length stall.sends
  cases hsent : sendAll (requestHead url request).length stall.sends with
  | error halt =>
    cases halt with
    | waiting =>
      obtain ⟨hsum, hno⟩ := hwaiting.mp hsent
      constructor
      · rintro ⟨n, hn⟩
        obtain ⟨attempt, hattempt, -⟩ := hn n (le_refl n)
        simp only [performOnce, stall.sendAll_conn, hsent, reduceCtorEq] at hattempt
      · rintro (h | ⟨error, h⟩)
        · omega
        · exact absurd h (hno error)
    | failed error message =>
      have hphase : stall.phase url request polls = .done := by simp only [Stall.phase, hsent]
      constructor
      · intro _
        by_contra hnot
        rw [not_or, not_exists, not_le] at hnot
        rw [hwaiting.mpr hnot] at hsent
        cases hsent
      · intro _
        refine ⟨0, fun m _ => ?_⟩
        simp only [performOnce, stall.sendAll_conn, hsent, hphase]
        exact ⟨_, rfl, fun _ h => absurd rfl h, Phase.noConfusion⟩
  | ok u =>
    constructor
    · intro _
      by_contra hnot
      rw [not_or, not_exists, not_le] at hnot
      rw [hwaiting.mpr hnot] at hsent
      cases hsent
    · intro _
      exact stall.ends_sent url request calls polls s hsent

def mute : Stall where
  sends := []
  ticks := []
  canceled _ := false
  clock n := n
  advances _ _ h := Int.ofNat_lt.mpr h

theorem performOnce_mute :
    ¬mute.Ends ⟨ascii "http", ascii "h", ascii "80", ascii "/"⟩ { url := ascii "http://h/" }
      (⟨none, fun s _ => (true, s)⟩ : Callbacks Unit) true () := by
  rintro ⟨n, hn⟩
  obtain ⟨attempt, hattempt, -⟩ := hn n (le_refl n)
  have hwait : sendAll (requestHead ⟨ascii "http", ascii "h", ascii "80", ascii "/"⟩
      { url := ascii "http://h/" }).length
      mute.sends = .error .waiting := by decide +kernel
  simp only [performOnce, mute.sendAll_conn, hwait, reduceCtorEq] at hattempt

end BinderDownload.Http
