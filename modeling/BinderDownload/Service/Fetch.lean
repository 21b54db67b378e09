import BinderDownload.Http.Truncation
import BinderDownload.Service.Writes

namespace BinderDownload.HttpService

open Text Http Files

/-- The content that the body is laid over: a response that starts at 0 drops an old file. -/
def landing (bytes : Bytes) (resumeFrom startOffset : ℤ) : Bytes :=
  if startOffset = 0 ∧ 0 < resumeFrom then [] else bytes

def World.reply (world : World) (url : Bytes) (resumeFrom : ℕ) : Reply :=
  world.net.reply { url, resumeFrom } true

def World.sink (world : World) (bytes : Bytes) : Sink :=
  { file := ⟨bytes, 0⟩, writes := world.writes, sinceReportMs := world.sinceReportMs }

def World.handed (world : World) (url : Bytes) (resumeFrom : ℕ) : List Bytes :=
  (get { url, resumeFrom } ⟨none, fun (pieces : List Bytes) piece => (true, pieces ++ [piece])⟩ true world.net []).2

def fetchActs (url : Bytes) (resumeFrom : ℤ) (callback : Bool) (world : World) (bytes : Bytes) : List Act :=
  if world.descriptor = false then []
  else
    let resumeFrom := max resumeFrom 0
    let run := get { url, resumeFrom } (Sink.logged world resumeFrom callback) true world.net (world.sink bytes, [])
    run.2.2 ++ ((Sink.conclude callback (run.1, run.2.1)).sent.drop run.2.1.sent.length).map .sent

theorem Sink.onHeaders_spec (world : World) (resumeFrom : ℤ) (callback : Bool) (s : Sink) (info : ResponseInfo) :
    match s.onHeaders world resumeFrom callback info with
    | (false, t) => t.file.bytes = s.file.bytes ∧ t.sent = s.sent
    | (true, t) => 0 ≤ info.startOffset ∧ t.written = s.written ∧ t.writes = s.writes ∧
        t.file = ⟨landing s.file.bytes resumeFrom info.startOffset, info.startOffset.toNat⟩ := by
  unfold onHeaders landing
  by_cases hneg : info.startOffset < 0
  · simp [hneg]
  · simp only [hneg, if_false]
    have hle : 0 ≤ info.startOffset := by omega
    cases world.seekError with
    | some e => exact ⟨rfl, rfl⟩
    | none =>
      by_cases hz : info.startOffset = 0 ∧ 0 < resumeFrom
      · simp only [hz, and_self, if_true]
        cases world.truncateError with
        | some e => exact ⟨rfl, rfl⟩
        | none => cases callback <;> simp [send]
      · simp only [hz, if_false]
        cases callback <;> simp [send, hle]

theorem Sink.conclude_bytes (callback : Bool) (result : Option Result) (s : Sink) :
    (conclude callback (result, s)).bytes = s.file.bytes := by
  cases result with
  | none => rfl
  | some result =>
    simp only [conclude]
    split_ifs <;> simp

theorem Sink.conclude_ok {callback : Bool} {result : Option Result} {s : Sink} {n : ℕ}
    (h : (conclude callback (result, s)).status = some (.ok n)) :
    n = s.written ∧ ∃ r, result = some r ∧ r.error = .ok := by
  cases result with
  | none => simp [conclude] at h
  | some result =>
    simp only [conclude] at h
    split_ifs at h with he hw
    · simp at h
    · simp at h
    · simp only [send_written, Option.some.injEq, Status.ok.injEq] at h
      exact ⟨h.symm, result, rfl, by simpa using he⟩

theorem Sink.conclude_sent {callback : Bool} {result : Option Result} {s : Sink} :
    (conclude callback (result, s)).sent = s.sent ∧ (∀ n, (conclude callback (result, s)).status ≠ some (.ok n)) ∨
      (conclude callback (result, s)).sent = (s.send callback (.bytesReceived s.written s.total)).sent ∧
        (conclude callback (result, s)).status = some (.ok s.written) := by
  cases result with
  | none => exact .inl ⟨rfl, fun n h => by cases h⟩
  | some result =>
    simp only [conclude]
    split_ifs
    · exact .inl ⟨rfl, fun n h => by cases h⟩
    · exact .inl ⟨rfl, fun n h => by cases h⟩
    · right
      simp

theorem Sink.conclude_failed {callback : Bool} {result : Option Result} (s : Sink)
    (h : ∀ r, result = some r → r.error ≠ .ok) :
    (conclude callback (result, s)).sent = s.sent ∧ ∀ n, (conclude callback (result, s)).status ≠ some (.ok n) := by
  have hfails (n : ℕ) : (conclude callback (result, s)).status ≠ some (.ok n) := by
    intro hn
    obtain ⟨-, r, hr, hok⟩ := conclude_ok hn
    exact h r hr hok
  refine ⟨?_, hfails⟩
  rcases @conclude_sent callback result s with ⟨hsent, -⟩ | ⟨-, hok⟩
  · exact hsent
  · exact absurd hok (hfails _)

theorem feed_pieces (collected pieces : List Bytes) :
    (feed (fun (ps : List Bytes) (p : Bytes) => (true, ps ++ [p])) collected pieces).state = collected ++ pieces := by
  rw [feed_total (fun _ _ => rfl), List.foldl_append_eq_append, ← List.flatMap_def, List.flatMap_singleton']

theorem Reply.deliver_logged (reply : Reply) (pieces : List Bytes) (world : World) (resumeFrom : ℤ) (callback : Bool)
    (s : Sink) (acts : List Act) :
    reply.deliver pieces (Sink.calls world resumeFrom callback) s =
      ((reply.deliver pieces (Sink.logged world resumeFrom callback) (s, acts)).1,
        (reply.deliver pieces (Sink.logged world resumeFrom callback) (s, acts)).2.1) := by
  cases ha : reply.announced with
  | none => simp only [Reply.deliver, ha]
  | some info =>
    have hlogged : (Sink.logged world resumeFrom callback).headers (s, acts) info =
        ((s.onHeaders world resumeFrom callback info).1, (s.onHeaders world resumeFrom callback info).2,
          acts ++ s.news (s.onHeaders world resumeFrom callback info).2) := rfl
    rcases hc : s.onHeaders world resumeFrom callback info with ⟨_ | _, t⟩
    · rw [hc] at hlogged
      rw [Reply.deliver_refused pieces ha ((Sink.calls_headers _ _ _ _ _).trans hc),
        Reply.deliver_refused pieces ha hlogged]
    · rw [hc] at hlogged
      rw [Reply.deliver_accepted pieces ha ((Sink.calls_headers _ _ _ _ _).trans hc),
        Reply.deliver_accepted pieces ha hlogged, Sink.calls_onBody,
        Sink.feed_logged world resumeFrom callback t (acts ++ s.news t) pieces]

theorem fetchActs_deliver (url : Bytes) (resumeFrom : ℕ) (callback : Bool) (world : World) (bytes : Bytes)
    (hd : world.descriptor = true) :
    ∃ pieces, pieces.flatten = (world.reply url resumeFrom).body ∧
      (∀ info, (world.reply url resumeFrom).announced = some info → world.handed url resumeFrom = pieces) ∧
      ∀ run, (world.reply url resumeFrom).deliver pieces (Sink.logged world resumeFrom callback)
          (world.sink bytes, []) = run →
        fetchToFd url resumeFrom callback world bytes = Sink.conclude callback (run.1.map Attempt.result, run.2.1) ∧
        fetchActs url resumeFrom callback world bytes = run.2.2 ++
          ((fetchToFd url resumeFrom callback world bytes).sent.drop run.2.1.sent.length).map .sent := by
  obtain ⟨pieces, -, hflat, hget⟩ := get_deliver { url, resumeFrom } true world.net
  have hmax : max (resumeFrom : ℤ) 0 = resumeFrom := by omega
  refine ⟨pieces, hflat, ?_, ?_⟩
  · intro info ha
    rw [World.handed, hget, show world.net.reply { url, resumeFrom } true = world.reply url resumeFrom from rfl]
    rw [Reply.deliver_accepted pieces ha rfl]
    exact feed_pieces [] pieces
  · rintro run rfl
    have hfetch : fetchToFd url resumeFrom callback world bytes = Sink.conclude callback
        (((world.reply url resumeFrom).deliver pieces (Sink.logged world resumeFrom callback)
            (world.sink bytes, [])).1.map Attempt.result,
          ((world.reply url resumeFrom).deliver pieces (Sink.logged world resumeFrom callback)
            (world.sink bytes, [])).2.1) := by
      have hlogged := Reply.deliver_logged (world.reply url resumeFrom) pieces world resumeFrom callback
        (world.sink bytes) []
      simp only [fetchToFd, hd, hmax, hget, Bool.true_eq_false, if_false]
      exact congrArg (fun run => Sink.conclude callback (Prod.map (Option.map Attempt.result) id run)) hlogged
    refine ⟨hfetch, ?_⟩
    rw [hfetch]
    simp only [fetchActs, hd, hmax, hget, Bool.true_eq_false, if_false]
    rfl

inductive Course (url : Bytes) (resumeFrom : ℕ) (callback : Bool) (world : World) (bytes : Bytes)
    (fetched : Fetched) (acts : List Act) : Prop
  | barren
      (refused : ∀ info, world.descriptor = true → (world.reply url resumeFrom).announced = some info →
        ((world.sink bytes).onHeaders world resumeFrom callback info).1 = false)
      (kept : fetched.bytes = bytes) (silent : fetched.sent = []) (idle : acts = [])
      (fails : ∀ n, fetched.status ≠ some (.ok n))
  | fruitful (info : ResponseInfo) (t : Sink) (fed : Fed (Sink × List Act) Bytes) (result : Option Result)
      (descriptor : world.descriptor = true) (announced : (world.reply url resumeFrom).announced = some info)
      (accepted : (world.sink bytes).onHeaders world resumeFrom callback info = (true, t))
      (handed : feed (Sink.logged world resumeFrom callback).onBody (t, (world.sink bytes).news t)
        (world.handed url resumeFrom) = fed)
      (whole : (world.handed url resumeFrom).flatten = (world.reply url resumeFrom).body)
      (done : fed.done = true → result = (world.reply url resumeFrom).attempt.map Attempt.result)
      (cut : fed.done = false → ∀ r, result = some r → r.error ≠ .ok)
      (concluded : fetched = Sink.conclude callback (result, fed.state.1))
      (ends : acts = fed.state.2 ++ (fetched.sent.drop fed.state.1.sent.length).map .sent)

theorem fetchToFd_course (url : Bytes) (resumeFrom : ℕ) (callback : Bool) (world : World) (bytes : Bytes) :
    Course url resumeFrom callback world bytes (fetchToFd url resumeFrom callback world bytes)
      (fetchActs url resumeFrom callback world bytes) := by
  by_cases hd : world.descriptor = true
  · obtain ⟨pieces, hflat, hhanded, hrun⟩ := fetchActs_deliver url resumeFrom callback world bytes hd
    cases ha : (world.reply url resumeFrom).announced with
    | none =>
      obtain ⟨hfetch, hacts⟩ := hrun ((world.reply url resumeFrom).attempt, world.sink bytes, []) (by
        rw [Reply.deliver, ha])
      have hfailed (r : Result) (hr : (world.reply url resumeFrom).attempt.map Attempt.result = some r) :
          r.error ≠ .ok := by
        intro hok
        obtain ⟨attempt, hattempt, rfl⟩ := Option.map_eq_some_iff.mp hr
        have hsome : (world.reply url resumeFrom).announced.isSome = true :=
          world.net.reply_announced { url, resumeFrom } true attempt hattempt hok
        rw [ha] at hsome
        cases hsome
      obtain ⟨hsilent, hfails⟩ := @Sink.conclude_failed callback _ (world.sink bytes) hfailed
      rw [← hfetch] at hsilent hfails
      refine .barren (fun info _ hsome => by rw [ha] at hsome; cases hsome) ?_ hsilent ?_ hfails
      · rw [hfetch, Sink.conclude_bytes]
        rfl
      · rw [hacts, hsilent]
        rfl
    | some info =>
      have hheaders : (Sink.logged world resumeFrom callback).headers (world.sink bytes, []) info =
          (((world.sink bytes).onHeaders world resumeFrom callback info).1,
            ((world.sink bytes).onHeaders world resumeFrom callback info).2,
            (world.sink bytes).news ((world.sink bytes).onHeaders world resumeFrom callback info).2) := rfl
      have hspec := Sink.onHeaders_spec world resumeFrom callback (world.sink bytes) info
      rcases hc : (world.sink bytes).onHeaders world resumeFrom callback info with ⟨_ | _, t⟩
      · rw [hc] at hheaders hspec
        obtain ⟨hfetch, hacts⟩ := hrun _ (Reply.deliver_refused pieces ha hheaders)
        have hfailed (r : Result) (hr : some (refusedByCaller info).result = some r) : r.error ≠ .ok := by
          cases hr
          exact Error.noConfusion
        obtain ⟨hkept, hfails⟩ := @Sink.conclude_failed callback _ t hfailed
        rw [Option.map_some] at hfetch
        rw [← hfetch] at hkept hfails
        have hsilent : (fetchToFd url resumeFrom callback world bytes).sent = [] := hkept.trans hspec.2
        refine .barren (fun info' _ hsome => ?_) ?_ hsilent ?_ hfails
        · rw [ha] at hsome
          cases hsome
          rw [hc]
        · rw [hfetch, Sink.conclude_bytes]
          exact hspec.1
        · have hnews : (world.sink bytes).news t = [] := by
            rw [Sink.news, hspec.2, List.drop_length, List.map_nil]
          rw [hacts, hsilent, List.drop_nil]
          simpa using hnews
      · rw [hc] at hheaders
        obtain ⟨hfetch, hacts⟩ := hrun _ (Reply.deliver_accepted pieces ha hheaders)
        rw [← hhanded info ha] at hflat hfetch hacts
        refine .fruitful info t _ _ hd ha hc rfl hflat ?_ ?_ hfetch hacts
        · intro hdone
          rw [if_pos hdone]
        · intro hcut r hr
          rw [if_neg (by rw [hcut]; exact Bool.false_ne_true)] at hr
          cases hr
          exact Error.noConfusion
  · have hd' : world.descriptor = false := by simpa using hd
    have hfetch : fetchToFd url resumeFrom callback world bytes =
        ⟨some (.failure .write (ascii "no file descriptor to write to")), bytes, []⟩ := by rw [fetchToFd, if_pos hd']
    have hacts : fetchActs url resumeFrom callback world bytes = [] := by rw [fetchActs, if_pos hd']
    rw [hfetch, hacts]
    exact .barren (fun info htrue _ => absurd htrue hd) rfl rfl rfl (fun n hn => by cases hn)

theorem accepted_bytes {url : Bytes} {resumeFrom : ℕ} {callback : Bool} {world : World} {bytes : Bytes}
    {info : ResponseInfo} {t : Sink} (result : Option Result)
    (hc : (world.sink bytes).onHeaders world resumeFrom callback info = (true, t))
    (hflat : (world.handed url resumeFrom).flatten = (world.reply url resumeFrom).body) :
    let fed := feed (Sink.logged world resumeFrom callback).onBody (t, (world.sink bytes).news t)
      (world.handed url resumeFrom)
    0 ≤ info.startOffset ∧ ∃ taken, taken <+: (world.reply url resumeFrom).body ∧
      (Sink.conclude callback (result, fed.state.1)).bytes =
        overlay 0 (landing bytes resumeFrom info.startOffset) info.startOffset.toNat taken ∧
      (fed.done = true → taken = (world.reply url resumeFrom).body ∧
        fed.state.1.written = (world.reply url resumeFrom).body.length) := by
  intro fed
  have hheaders := Sink.onHeaders_spec world resumeFrom callback (world.sink bytes) info
  rw [hc] at hheaders
  obtain ⟨hstart, hwritten, -, hfile⟩ := hheaders
  obtain ⟨taken, -, hpre, hstate, hall⟩ :=
    Sink.feed_acts world resumeFrom callback t ((world.sink bytes).news t) (world.handed url resumeFrom)
  refine ⟨hstart, taken, hflat ▸ hpre, ?_, fun hfull => ?_⟩
  · rw [Sink.conclude_bytes, hstate, hfile]
    rfl
  · obtain ⟨htaken, hcount⟩ := hall hfull
    refine ⟨htaken.trans hflat, ?_⟩
    rw [hcount, hwritten, hflat]
    exact Nat.zero_add _

theorem fetchToFd_spec (url : Bytes) (resumeFrom : ℕ) (callback : Bool) (world : World) (bytes : Bytes) :
    (fetchToFd url resumeFrom callback world bytes).bytes = bytes ∧
        (∀ n, (fetchToFd url resumeFrom callback world bytes).status ≠ some (.ok n)) ∨
      ∃ info taken, (world.reply url resumeFrom).announced = some info ∧ 0 ≤ info.startOffset ∧
        taken <+: (world.reply url resumeFrom).body ∧
        (fetchToFd url resumeFrom callback world bytes).bytes =
          overlay 0 (landing bytes resumeFrom info.startOffset) info.startOffset.toNat taken ∧
        ∀ n, (fetchToFd url resumeFrom callback world bytes).status = some (.ok n) →
          taken = (world.reply url resumeFrom).body ∧ n = (world.reply url resumeFrom).body.length ∧
          ∃ attempt, (world.reply url resumeFrom).attempt = some attempt ∧ attempt.result.error = .ok := by
  cases fetchToFd_course url resumeFrom callback world bytes with
  | barren refused kept silent idle fails => exact .inl ⟨kept, fails⟩
  | fruitful info t fed result hd ha hc hfed hflat hdone hcut hfetch =>
    obtain ⟨hstart, taken, hpre, hbytes, hall⟩ := accepted_bytes result hc hflat
    rw [hfed] at hbytes hall
    refine .inr ⟨info, taken, ha, hstart, hpre, by rw [hfetch, hbytes], fun n hn => ?_⟩
    rw [hfetch] at hn
    obtain ⟨hn, r, hr, hok⟩ := Sink.conclude_ok hn
    have hfull : fed.done = true := by
      by_contra hnot
      exact hcut (by simpa using hnot) r hr hok
    obtain ⟨htaken, hcount⟩ := hall hfull
    obtain ⟨attempt, hattempt, rfl⟩ := Option.map_eq_some_iff.mp ((hdone hfull).symm.trans hr)
    exact ⟨htaken, hn.trans hcount, attempt, hattempt, hok⟩

theorem fetchToFd_begun {url : Bytes} {resumeFrom : ℕ} {callback : Bool} {world : World} {bytes : Bytes}
    (h : (fetchToFd url resumeFrom callback world bytes).sent ≠ []) :
    ∃ info taken, (world.reply url resumeFrom).announced = some info ∧ taken <+: (world.reply url resumeFrom).body ∧
      (fetchToFd url resumeFrom callback world bytes).bytes =
        overlay 0 (landing bytes resumeFrom info.startOffset) info.startOffset.toNat taken := by
  cases fetchToFd_course url resumeFrom callback world bytes with
  | barren refused kept silent idle fails => exact absurd silent h
  | fruitful info t fed result hd ha hc hfed hflat hdone hcut hfetch =>
    obtain ⟨-, taken, hpre, hbytes, -⟩ := accepted_bytes result hc hflat
    rw [hfed] at hbytes
    exact ⟨info, taken, ha, hpre, by rw [hfetch, hbytes]⟩

/-- A disk that takes everything it is given, in whatever portions. -/
def Steady (writes : List WriteResult) : Prop := ∀ error, WriteResult.stopped error ∉ writes

theorem writeFully_steady (file : File) (data : Bytes) (writes : List WriteResult) (h : Steady writes) :
    (writeFully file data writes).ok = true ∧ Steady (writeFully file data writes).writes := by
  fun_induction writeFully file data writes with
  | case1 file writes => exact ⟨rfl, h⟩
  | case2 file data hne => exact ⟨rfl, h⟩
  | case3 file data hne n writes ih => exact ih (fun e he => h e (List.mem_cons_of_mem _ he))
  | case4 file data hne writes ih => exact ih (fun e he => h e (List.mem_cons_of_mem _ he))
  | case5 file data hne error writes => exact absurd List.mem_cons_self (h error)

theorem Sink.onBody_steady (callback : Bool) (s : Sink) (data : Bytes) (h : Steady s.writes) :
    (s.onBody callback data).1 = true ∧ Steady (s.onBody callback data).2.writes := by
  obtain ⟨hok, hw⟩ := writeFully_steady s.file data s.writes h
  unfold onBody
  simp only [hok, Bool.true_eq_false, if_false]
  split_ifs
  · exact ⟨rfl, by unfold send; split_ifs <;> exact hw⟩
  · exact ⟨rfl, hw⟩

theorem Sink.feed_steady (callback : Bool) (s : Sink) (pieces : List Bytes) (h : Steady s.writes) :
    (feed (onBody callback) s pieces).done = true := by
  induction pieces generalizing s with
  | nil => rfl
  | cons piece pieces ih =>
    obtain ⟨hok, hw⟩ := s.onBody_steady callback piece h
    rw [feed]
    rcases hb : s.onBody callback piece with ⟨_ | _, t⟩
    · simp [hb] at hok
    · rw [hb] at hw
      exact ih t hw

theorem fetchToFd_accepted {url : Bytes} {resumeFrom : ℕ} {callback : Bool} {world : World} {bytes : Bytes}
    {info : ResponseInfo} {t : Sink} (hd : world.descriptor = true)
    (ha : (world.reply url resumeFrom).announced = some info)
    (hc : (world.sink bytes).onHeaders world resumeFrom callback info = (true, t)) (hwrites : Steady world.writes) :
    (fetchToFd url resumeFrom callback world bytes).bytes =
        overlay 0 (landing bytes resumeFrom info.startOffset) info.startOffset.toNat (world.reply url resumeFrom).body ∧
      ∀ attempt, (world.reply url resumeFrom).attempt = some attempt → attempt.result.error = .ok →
        (fetchToFd url resumeFrom callback world bytes).status =
          some (.ok (world.reply url resumeFrom).body.length) := by
  cases fetchToFd_course url resumeFrom callback world bytes with
  | barren refused =>
    have hrefused := refused info hd ha
    rw [hc] at hrefused
    cases hrefused
  | fruitful info' t' fed result _ ha' hc' hfed hflat hdone hcut hfetch =>
    rw [ha] at ha'
    cases ha'
    rw [hc] at hc'
    cases hc'
    have hheaders := Sink.onHeaders_spec world resumeFrom callback (world.sink bytes) info
    rw [hc] at hheaders
    have hfull : fed.done = true := by
      have hsteady := Sink.feed_steady callback t (world.handed url resumeFrom) (by rw [hheaders.2.2.1]; exact hwrites)
      rw [Sink.feed_logged world resumeFrom callback t ((world.sink bytes).news t), hfed] at hsteady
      exact hsteady
    obtain ⟨-, taken, -, hbytes, hall⟩ := accepted_bytes result hc hflat
    rw [hfed] at hbytes hall
    obtain ⟨rfl, hcount⟩ := hall hfull
    rw [hfetch]
    refine ⟨hbytes, fun attempt hattempt hok => ?_⟩
    rw [hdone hfull, hattempt]
    simp only [Option.map_some, Sink.conclude, hok, ne_eq, not_true_eq_false, if_false, Sink.send_written, hcount]

theorem fetchToFd_steady (url : Bytes) (resumeFrom : ℕ) (callback : Bool) (world : World) (bytes : Bytes)
    {info : ResponseInfo} (hd : world.descriptor = true) (hseek : world.seekError = none)
    (htruncate : world.truncateError = none) (hwrites : Steady world.writes)
    (ha : (world.reply url resumeFrom).announced = some info) (hstart : 0 ≤ info.startOffset) :
    (fetchToFd url resumeFrom callback world bytes).bytes =
        overlay 0 (landing bytes resumeFrom info.startOffset) info.startOffset.toNat (world.reply url resumeFrom).body ∧
      ∀ attempt, (world.reply url resumeFrom).attempt = some attempt → attempt.result.error = .ok →
        (fetchToFd url resumeFrom callback world bytes).status =
          some (.ok (world.reply url resumeFrom).body.length) := by
  obtain ⟨t, hc⟩ : ∃ t, (world.sink bytes).onHeaders world resumeFrom callback info = (true, t) := by
    unfold Sink.onHeaders
    simp only [Int.not_lt.mpr hstart, if_false, hseek, htruncate]
    split_ifs
    · exact ⟨_, rfl⟩
    · exact ⟨_, rfl⟩
  exact fetchToFd_accepted hd ha hc hwrites

end BinderDownload.HttpService
