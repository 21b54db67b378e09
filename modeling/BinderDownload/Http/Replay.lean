import BinderDownload.Http.Journal

namespace BinderDownload.Http

open Text

variable {σ : Type} {journal front : List Entry}

def Entry.replay (calls : Callbacks σ) (s : σ) : Entry → σ
  | .headers info => (calls.headers s info).2
  | .body piece => (calls.onBody s piece).2
  | _ => s

def replay (calls : Callbacks σ) (journal : List Entry) (s : σ) : σ := journal.foldl (Entry.replay calls) s

section Replay

variable (calls : Callbacks σ) (s : σ)

@[simp] theorem replay_nil : replay calls [] s = s := rfl

@[simp] theorem replay_cons (entry : Entry) :
    replay calls (entry :: journal) s = replay calls journal (entry.replay calls s) := rfl

@[simp] theorem replay_append : replay calls (front ++ journal) s = replay calls journal (replay calls front s) :=
  List.foldl_append

end Replay

def Reads (journal : List Entry) : Prop := ∀ entry ∈ journal, entry = .recv ∨ ∃ answer, entry = .poll answer

theorem reads_append : Reads (front ++ journal) ↔ Reads front ∧ Reads journal := by
  simp only [Reads, List.mem_append, or_imp, forall_and]

theorem Reads.replay (h : Reads journal) (calls : Callbacks σ) (s : σ) : replay calls journal s = s := by
  induction journal with
  | nil => rfl
  | cons entry journal ih =>
    obtain ⟨hentry, hrest⟩ := List.forall_mem_cons.mp h
    rcases hentry with rfl | ⟨answer, rfl⟩ <;> exact ih hrest

def bodies (journal : List Entry) : List Bytes :=
  journal.filterMap (fun entry => match entry with
    | .body piece => some piece
    | _ => none)

theorem bodies_append : bodies (front ++ journal) = bodies front ++ bodies journal := List.filterMap_append

theorem Reads.bodies (h : Reads journal) : bodies journal = [] := by
  rw [Http.bodies, List.filterMap_eq_nil_iff]
  intro entry hentry
  rcases h entry hentry with rfl | ⟨answer, rfl⟩ <;> rfl

theorem Reads.lastChunk (h : Reads journal) : .lastChunk ∉ journal := by
  intro hmem
  rcases h _ hmem with hrecv | ⟨answer, hpoll⟩
  · cases hrecv
  · cases hpoll

namespace Reader

theorem fillEntries_reads (polls : Bool) (idleTimeoutMs : ℤ) (ts : List Tick) :
    Reads (fillEntries polls idleTimeoutMs ts) := by
  induction ts with
  | nil => simp [fillEntries, Reads]
  | cons t ts ih =>
    rw [fillEntries, reads_append]
    constructor
    · split_ifs <;> simp [Reads]
    · split_ifs
      · simp [Reads]
      · rw [← List.singleton_append, reads_append]
        refine ⟨by simp [Reads], ?_⟩
        cases t.recv with
        | again elapsedMs =>
          dsimp only
          split_ifs
          · simp [Reads]
          · exact ih
        | _ => simp [Reads]

theorem readLineFromJournal_reads (line : Bytes) (r : Reader) : Reads (readLineFromJournal line r) := by
  fun_induction readLineFrom line r with
  | case1 line r l n hs => simp [readLineFromJournal, hs, Reads]
  | case2 line r hs => simp [readLineFromJournal, hs, Reads]
  | case3 line r l hs halt hf =>
    rw [readLineFromJournal, hs]
    dsimp only
    split <;> rename_i h' <;> rw [hf] at h' <;> cases h'
    rw [List.append_nil]
    exact fillEntries_reads _ _ _
  | case4 line r l hs r' hf =>
    rw [readLineFromJournal, hs]
    dsimp only
    split <;> rename_i h' <;> rw [hf] at h' <;> cases h'
    rw [List.append_nil]
    exact fillEntries_reads _ _ _
  | case5 line r l hs r' hf ih =>
    rw [readLineFromJournal, hs]
    dsimp only
    split <;> rename_i h' <;> rw [hf] at h' <;> cases h'
    exact reads_append.mpr ⟨fillEntries_reads _ _ _, ih⟩

theorem readLine_reads (r : Reader) : Reads r.readLineJournal := readLineFromJournal_reads [] r

theorem refill_reads (r : Reader) : Reads r.refillJournal := by
  unfold refillJournal
  split_ifs
  · exact fillEntries_reads _ _ _
  · simp [Reads]

end Reader

section Plain

variable {r r' : Reader} {want : ℤ} {written : ℕ} (f : BodyFn σ) (s : σ)

theorem pumpPlainJournal_met (hw : ¬(want < 0 ∨ (written : ℤ) < want)) : pumpPlainJournal r want f s written = [] := by
  rw [pumpPlainJournal, dif_neg hw]

theorem pumpPlainJournal_error {halt : Halt} (hw : want < 0 ∨ (written : ℤ) < want) (hr : r.refill = .error halt) :
    pumpPlainJournal r want f s written = r.refillJournal := by
  rw [pumpPlainJournal, dif_pos hw]
  split <;> rename_i h <;> rw [hr] at h <;> cases h
  exact List.append_nil _

theorem pumpPlainJournal_closed (hw : want < 0 ∨ (written : ℤ) < want) (hr : r.refill = .ok (true, r')) :
    pumpPlainJournal r want f s written = r.refillJournal := by
  rw [pumpPlainJournal, dif_pos hw]
  split <;> rename_i h <;> rw [hr] at h <;> cases h
  exact List.append_nil _

theorem pumpPlainJournal_rejected {t : σ} (hw : want < 0 ∨ (written : ℤ) < want) (hr : r.refill = .ok (false, r'))
    (hf : f s (r'.buffered.take (r'.slice want written)) = (false, t)) :
    pumpPlainJournal r want f s written =
      r.refillJournal ++ [.body (r'.buffered.take (r'.slice want written))] := by
  rw [pumpPlainJournal, dif_pos hw]
  split <;> rename_i h <;> rw [hr] at h <;> cases h
  simp only [hf]

theorem pumpPlainJournal_accepted {t : σ} (hw : want < 0 ∨ (written : ℤ) < want) (hr : r.refill = .ok (false, r'))
    (hf : f s (r'.buffered.take (r'.slice want written)) = (true, t)) :
    pumpPlainJournal r want f s written =
      r.refillJournal ++ ([.body (r'.buffered.take (r'.slice want written))] ++
        pumpPlainJournal (r'.consume (r'.slice want written)) want f t (written + r'.slice want written)) := by
  rw [pumpPlainJournal, dif_pos hw]
  split <;> rename_i h <;> rw [hr] at h <;> cases h
  simp only [hf, List.singleton_append]

end Plain

theorem trailersJournal_error {r : Reader} {halt : Halt} (h : r.readLine = .error halt) :
    trailersJournal r = r.readLineJournal := by
  rw [trailersJournal]
  split <;> rename_i h' <;> rw [h] at h' <;> cases h'
  exact List.append_nil _

theorem trailersJournal_ok {r r' : Reader} {line : Bytes} (h : r.readLine = .ok (line, r')) :
    trailersJournal r = r.readLineJournal ++ (if line = [] then [] else trailersJournal r') := by
  rw [trailersJournal]
  split <;> rename_i h' <;> rw [h] at h' <;> cases h'
  rfl

theorem trailersJournal_reads (r : Reader) : Reads (trailersJournal r) := by
  fun_induction trailers r with
  | case1 r h =>
    rw [trailersJournal_error h]
    exact r.readLine_reads
  | case2 r e m h =>
    rw [trailersJournal_error h]
    exact r.readLine_reads
  | case3 r r' h =>
    rw [trailersJournal_ok h, if_pos rfl, List.append_nil]
    exact r.readLine_reads
  | case4 r line r' h hl ih =>
    rw [trailersJournal_ok h, if_neg hl]
    exact reads_append.mpr ⟨r.readLine_reads, ih⟩

section Chunked

variable {r r1 r2 r3 : Reader} {line line' : Bytes} {halt : Halt} (f : BodyFn σ) (s : σ)

theorem pumpChunkedJournal_error (h : r.readLine = .error halt) : pumpChunkedJournal r f s = r.readLineJournal := by
  rw [pumpChunkedJournal]
  split <;> rename_i h' <;> rw [h] at h' <;> cases h'
  exact List.append_nil _

theorem pumpChunkedJournal_malformed (h : r.readLine = .ok (line, r1))
    (hs : (strtoll (chunkHeader line) 16).2 = 0 ∨ (strtoll (chunkHeader line) 16).1 < 0) :
    pumpChunkedJournal r f s = r.readLineJournal := by
  rw [pumpChunkedJournal]
  split <;> rename_i h' <;> rw [h] at h' <;> cases h'
  rw [if_pos hs, List.append_nil]

theorem pumpChunkedJournal_last (h : r.readLine = .ok (line, r1))
    (hs : ¬((strtoll (chunkHeader line) 16).2 = 0 ∨ (strtoll (chunkHeader line) 16).1 < 0))
    (hz : (strtoll (chunkHeader line) 16).1 = 0) :
    pumpChunkedJournal r f s = r.readLineJournal ++ ([.lastChunk] ++ trailersJournal r1) := by
  rw [pumpChunkedJournal]
  split <;> rename_i h' <;> rw [h] at h' <;> cases h'
  rw [if_neg hs, if_pos hz]
  rfl

theorem pumpChunkedJournal_cut (h : r.readLine = .ok (line, r1))
    (hs : ¬((strtoll (chunkHeader line) 16).2 = 0 ∨ (strtoll (chunkHeader line) 16).1 < 0))
    (hz : ¬(strtoll (chunkHeader line) 16).1 = 0)
    (hp : (pumpPlain r1 (strtoll (chunkHeader line) 16).1 f s 0).outcome = .error halt) :
    pumpChunkedJournal r f s =
      r.readLineJournal ++ pumpPlainJournal r1 (strtoll (chunkHeader line) 16).1 f s 0 := by
  rw [pumpChunkedJournal]
  split <;> rename_i h' <;> rw [h] at h' <;> cases h'
  rw [if_neg hs, if_neg hz]
  split <;> rename_i h' <;> rw [hp] at h' <;> cases h'
  rw [List.append_nil]

theorem pumpChunkedJournal_unended (h : r.readLine = .ok (line, r1))
    (hs : ¬((strtoll (chunkHeader line) 16).2 = 0 ∨ (strtoll (chunkHeader line) 16).1 < 0))
    (hz : ¬(strtoll (chunkHeader line) 16).1 = 0)
    (hp : (pumpPlain r1 (strtoll (chunkHeader line) 16).1 f s 0).outcome = .ok r2) (he : r2.readLine = .error halt) :
    pumpChunkedJournal r f s =
      r.readLineJournal ++ (pumpPlainJournal r1 (strtoll (chunkHeader line) 16).1 f s 0 ++ r2.readLineJournal) := by
  rw [pumpChunkedJournal]
  split <;> rename_i h' <;> rw [h] at h' <;> cases h'
  rw [if_neg hs, if_neg hz]
  split <;> rename_i h' <;> rw [hp] at h' <;> cases h'
  split <;> rename_i h' <;> rw [he] at h' <;> cases h'
  rw [List.append_nil]

theorem pumpChunkedJournal_chunk (h : r.readLine = .ok (line, r1))
    (hs : ¬((strtoll (chunkHeader line) 16).2 = 0 ∨ (strtoll (chunkHeader line) 16).1 < 0))
    (hz : ¬(strtoll (chunkHeader line) 16).1 = 0)
    (hp : (pumpPlain r1 (strtoll (chunkHeader line) 16).1 f s 0).outcome = .ok r2)
    (he : r2.readLine = .ok (line', r3)) :
    pumpChunkedJournal r f s =
      r.readLineJournal ++ (pumpPlainJournal r1 (strtoll (chunkHeader line) 16).1 f s 0 ++ (r2.readLineJournal ++
        pumpChunkedJournal r3 f (pumpPlain r1 (strtoll (chunkHeader line) 16).1 f s 0).sink)) := by
  rw [pumpChunkedJournal]
  split <;> rename_i h' <;> rw [h] at h' <;> cases h'
  rw [if_neg hs, if_neg hz]
  split <;> rename_i h' <;> rw [hp] at h' <;> cases h'
  split <;> rename_i h' <;> rw [he] at h' <;> cases h'
  rfl

end Chunked

section Headers

variable {r r' : Reader} {line : Bytes} (headers : Headers)

theorem readHeadersJournal_error {halt : Halt} (h : r.readLine = .error halt) :
    readHeadersJournal r headers = r.readLineJournal := by
  rw [readHeadersJournal]
  split <;> rename_i h' <;> rw [h] at h' <;> cases h'
  exact List.append_nil _

theorem readHeadersJournal_ok (h : r.readLine = .ok (line, r')) :
    readHeadersJournal r headers = r.readLineJournal ++
      if line = [] then []
      else match find 58 line with
        | none => readHeadersJournal r' headers
        | some colon =>
          if kMaxHeaderCount ≤ headers.size then []
          else readHeadersJournal r' (headers.add (trim (line.take colon)) (trim (line.drop (colon + 1)))) := by
  rw [readHeadersJournal]
  split <;> rename_i h' <;> rw [h] at h' <;> cases h'
  rfl

end Headers

theorem readHeadersJournal_reads (r : Reader) (headers : Headers) : Reads (readHeadersJournal r headers) := by
  fun_induction readHeaders r headers with
  | case1 r headers halt h =>
    rw [readHeadersJournal_error headers h]
    exact r.readLine_reads
  | case2 r headers r' h =>
    rw [readHeadersJournal_ok headers h, if_pos rfl, List.append_nil]
    exact r.readLine_reads
  | case3 r headers line r' h hl hc ih =>
    simp only [readHeadersJournal_ok headers h, if_neg hl, hc]
    exact reads_append.mpr ⟨r.readLine_reads, ih⟩
  | case4 r headers line r' h hl colon hc hk =>
    simp only [readHeadersJournal_ok headers h, if_neg hl, hc, if_pos hk, List.append_nil]
    exact r.readLine_reads
  | case5 r headers line r' h hl colon hc hk ih =>
    simp only [readHeadersJournal_ok headers h, if_neg hl, hc, if_neg hk]
    exact reads_append.mpr ⟨r.readLine_reads, ih⟩

theorem pumpPlain_replay (calls : Callbacks σ) (r : Reader) (want : ℤ) (s : σ) (written : ℕ) :
    (pumpPlain r want calls.onBody s written).sink =
      replay calls (pumpPlainJournal r want calls.onBody s written) s := by
  fun_induction pumpPlain r want calls.onBody s written with
  | case1 r s written hw halt hr =>
    rw [pumpPlainJournal_error _ s hw hr]
    exact (r.refill_reads.replay calls s).symm
  | case2 r s written hw r' hr hneg =>
    rw [pumpPlainJournal_closed _ s hw hr]
    exact (r.refill_reads.replay calls s).symm
  | case3 r s written hw r' hr hneg =>
    rw [pumpPlainJournal_closed _ s hw hr]
    exact (r.refill_reads.replay calls s).symm
  | case4 r s written hw r' hr chunk t hf =>
    rw [pumpPlainJournal_rejected _ s hw hr hf, replay_append, r.refill_reads.replay]
    exact (congrArg Prod.snd hf).symm
  | case5 r s written hw r' hr chunk t hf ih =>
    rw [pumpPlainJournal_accepted _ s hw hr hf, replay_append, replay_append, r.refill_reads.replay, replay_cons,
      replay_nil, Entry.replay, hf]
    exact ih
  | case6 r s written hw =>
    rw [pumpPlainJournal_met _ s hw]
    rfl

theorem pumpChunked_replay (calls : Callbacks σ) (r : Reader) (s : σ) (written : ℕ) :
    (pumpChunked r calls.onBody s written).sink = replay calls (pumpChunkedJournal r calls.onBody s) s := by
  fun_induction pumpChunked r calls.onBody s written with
  | case1 r s written halt h =>
    rw [pumpChunkedJournal_error _ s h]
    exact (r.readLine_reads.replay calls s).symm
  | case2 r s written line r1 h header size hbad =>
    rw [pumpChunkedJournal_malformed _ s h hbad]
    exact (r.readLine_reads.replay calls s).symm
  | case3 r s written line r1 h header size hbad hz =>
    rw [pumpChunkedJournal_last _ s h hbad hz, replay_append, replay_append, r.readLine_reads.replay]
    exact ((trailersJournal_reads r1).replay calls s).symm
  | case4 r s written line r1 h header size hbad hz pumped halt hp =>
    rw [pumpChunkedJournal_cut _ s h hbad hz hp, replay_append, r.readLine_reads.replay]
    exact pumpPlain_replay calls r1 size.1 s 0
  | case5 r s written line r1 h header size hbad hz pumped r2 hp halt he =>
    rw [pumpChunkedJournal_unended _ s h hbad hz hp he, replay_append, replay_append, r.readLine_reads.replay,
      r2.readLine_reads.replay]
    exact pumpPlain_replay calls r1 size.1 s 0
  | case6 r s written line r1 h header size hbad hz pumped r2 hp line' r3 he ih =>
    have hchunk : pumped.sink = replay calls (pumpPlainJournal r1 size.1 calls.onBody s 0) s :=
      pumpPlain_replay calls r1 size.1 s 0
    rw [pumpChunkedJournal_chunk _ s h hbad hz hp he, replay_append, replay_append, replay_append,
      r.readLine_reads.replay, r2.readLine_reads.replay, ← hchunk]
    exact ih

theorem bodyJournal_replay (calls : Callbacks σ) (head : Head) (r : Reader) (s : σ) :
    (if head.chunked then conclude head.info (pumpChunked r calls.onBody s 0)
      else conclude head.info (pumpPlain r head.contentLength calls.onBody s 0)).2 =
      replay calls (bodyJournal head r calls.onBody s) s := by
  unfold bodyJournal
  split_ifs
  · exact pumpChunked_replay calls r s 0
  · exact pumpPlain_replay calls r head.contentLength s 0

theorem headers_replay (calls : Callbacks σ) (info : ResponseInfo) (s : σ) :
    replay calls (if calls.onHeaders.isSome then [.headers info] else []) s = (calls.headers s info).2 := by
  split_ifs with hsome
  · rfl
  · rw [Callbacks.headers, Option.not_isSome_iff_eq_none.mp hsome]
    rfl

theorem exchange_replay (url : Url) (request : Request) (calls : Callbacks σ) (r : Reader) (s : σ) :
    (exchange url request calls r s).2 = replay calls (exchangeJournal url request calls r s) s := by
  unfold exchange exchangeJournal
  rw [replay_append, r.readLine_reads.replay]
  cases r.readLine with
  | error halt => rfl
  | ok p =>
    obtain ⟨line, r1⟩ := p
    dsimp only
    by_cases hvalid : (parseStatusLine line).1 = false
    · rw [if_pos hvalid, if_pos hvalid]
      rfl
    · rw [if_neg hvalid, if_neg hvalid, replay_append, (readHeadersJournal_reads r1 {}).replay]
      cases readHeaders r1 {} with
      | error halt => rfl
      | ok q =>
        obtain ⟨headers, r2⟩ := q
        dsimp only
        cases inspectHead url request
            { statusCode := (parseStatusLine line).2.1, reason := (parseStatusLine line).2.2 } headers with
        | error attempt => rfl
        | ok head =>
          dsimp only
          rw [replay_append, headers_replay]
          rcases calls.headers s head.info with ⟨_ | _, t⟩
          · rfl
          · exact bodyJournal_replay calls head r2 t

theorem performOnce_replay (url : Url) (request : Request) (calls : Callbacks σ) (polls : Bool) (opened : Opened)
    (s : σ) :
    (performOnce url request calls polls opened s).2 =
      replay calls (performOnceJournal url request calls polls opened s) s := by
  cases opened with
  | refused error message failed => rfl
  | connected conn =>
    rw [performOnce, performOnceJournal]
    cases sendAll (requestHead url request).length conn.sends with
    | error halt => cases halt <;> rfl
    | ok u => exact exchange_replay url request calls (Reader.new conn.ticks polls request.idleTimeoutMs) s

theorem getFrom_replay (request : Request) (calls : Callbacks σ) (polls : Bool) (net : Net) (left hop : ℕ)
    (current : Bytes) (s : σ) :
    (getFrom request calls polls net hop current left s).2 =
      replay calls (getFromJournal request calls polls net hop current left s) s := by
  induction left generalizing hop current s with
  | zero => rfl
  | succ left ih =>
    rw [getFromJournal, getFrom]
    cases parseUrl current with
    | none => rfl
    | some url =>
      have hpoll : replay calls (if polls then [.poll (net.canceled hop)] else []) s = s := by
        split_ifs <;> rfl
      dsimp only
      rw [replay_append, hpoll]
      by_cases hc : polls && net.canceled hop
      · rw [if_pos hc, if_pos hc]
        rfl
      · rw [if_neg hc, if_neg hc, replay_append, ← performOnce_replay]
        rcases performOnce url { request with url := current } calls polls (net.opened hop) s with ⟨_ | attempt, t⟩
        · rfl
        · dsimp only
          split_ifs
          · rfl
          · exact ih (hop + 1) attempt.redirectTo t

theorem get_replay (request : Request) (calls : Callbacks σ) (polls : Bool) (net : Net) (s : σ) :
    (get request calls polls net s).2 = replay calls (getJournal request calls polls net s) s :=
  getFrom_replay request calls polls net (request.maxRedirects + 1) 0 request.url s

end BinderDownload.Http
