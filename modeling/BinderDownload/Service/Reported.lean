import BinderDownload.Service.Acts
import BinderDownload.Service.Litter
import BinderDownload.Service.Establish

namespace BinderDownload.HttpService

open Text Http Files

def taken (writes : List WriteResult) : List Bytes → ℕ
  | [] => 0
  | piece :: pieces =>
    let done := writeFully ⟨[], 0⟩ piece writes
    done.file.bytes.length + if done.ok then taken done.writes pieces else 0

def Told (complete : Prop) (pending : ℕ) (writes : List WriteResult) (sinceReportMs : List ℤ) : List Bytes → Prop
  | [] => pending = 0 ∨ complete
  | piece :: pieces =>
    let done := writeFully ⟨[], 0⟩ piece writes
    let due := kProgressBytes ≤ pending + piece.length ∨ kProgressIntervalMs ≤ sinceReportMs.headD 0
    if done.ok then
      Told complete (if due then 0 else pending + piece.length) done.writes sinceReportMs.tail pieces
    else pending = 0 ∧ done.file.bytes = []

@[simp] theorem File.write_new (bs : Bytes) : (File.write ⟨[], 0⟩ bs).bytes = bs := by
  cases bs with
  | nil => rfl
  | cons b bs => simp [write, overlay]

theorem writeFully_elsewhere (file file' : File) (data : Bytes) (writes : List WriteResult) :
    (writeFully file data writes).ok = (writeFully file' data writes).ok ∧
      (writeFully file data writes).writes = (writeFully file' data writes).writes := by
  fun_induction writeFully file data writes generalizing file' with
  | case1 file writes => simp [writeFully.eq_def file']
  | case2 file data hne => simp [writeFully, hne]
  | case3 file data hne n writes ih =>
    rw [writeFully.eq_def file', if_neg hne]
    exact ih (file'.write (data.take n))
  | case4 file data hne writes ih =>
    rw [writeFully.eq_def file', if_neg hne]
    exact ih file'
  | case5 file data hne error writes => simp [writeFully, hne]

theorem writeFully_bytes (file : File) (data : Bytes) (writes : List WriteResult) :
    (writeFully file data writes).file = file.write (writeFully ⟨[], 0⟩ data writes).file.bytes := by
  obtain ⟨-, -, hfile, -⟩ := writeActs_spec file data writes
  obtain ⟨-, -, hempty, -⟩ := writeActs_spec ⟨[], 0⟩ data writes
  rw [hfile, hempty, File.write_new]

theorem writeFully_whole {data : Bytes} {writes : List WriteResult} (h : (writeFully ⟨[], 0⟩ data writes).ok = true) :
    (writeFully ⟨[], 0⟩ data writes).file.bytes = data := by
  obtain ⟨-, -, hfile, hok⟩ := writeActs_spec ⟨[], 0⟩ data writes
  rw [hfile, hok h, File.write_new]

theorem Sink.onBody_cut (s : Sink) (piece : Bytes) (hcut : (writeFully ⟨[], 0⟩ piece s.writes).ok = false) :
    ∃ t, s.onBody true piece = (false, t) ∧
      t.file = s.file.write (writeFully ⟨[], 0⟩ piece s.writes).file.bytes ∧ t.reportedAt = s.reportedAt := by
  have hok : (writeFully s.file piece s.writes).ok = false :=
    ((writeFully_elsewhere s.file ⟨[], 0⟩ piece s.writes).1).trans hcut
  have hstep : s.onBody true piece = (false, { s with
      file := (writeFully s.file piece s.writes).file
      writes := (writeFully s.file piece s.writes).writes
      writeError := ascii "write: " ++ (writeFully s.file piece s.writes).error }) := by
    simp [onBody, hok]
  exact ⟨_, hstep, writeFully_bytes s.file piece s.writes, rfl⟩

theorem Sink.onBody_kept (s : Sink) (piece : Bytes) (hle : s.reportedAt ≤ s.written)
    (hkept : (writeFully ⟨[], 0⟩ piece s.writes).ok = true) :
    ∃ t, s.onBody true piece = (true, t) ∧ t.file = s.file.write piece ∧ t.written = s.written + piece.length ∧
      t.writes = (writeFully ⟨[], 0⟩ piece s.writes).writes ∧ t.sinceReportMs = s.sinceReportMs.tail ∧
      t.reportedAt ≤ t.written ∧ t.written - t.reportedAt =
        if kProgressBytes ≤ s.written - s.reportedAt + piece.length ∨ kProgressIntervalMs ≤ s.sinceReportMs.headD 0
        then 0 else s.written - s.reportedAt + piece.length := by
  obtain ⟨hsame, hwrites⟩ := writeFully_elsewhere s.file ⟨[], 0⟩ piece s.writes
  have hok : (writeFully s.file piece s.writes).ok = true := hsame.trans hkept
  have hfile : (writeFully s.file piece s.writes).file = s.file.write piece := by
    rw [writeFully_bytes, writeFully_whole hkept]
  have hpending : s.written + piece.length - s.reportedAt = s.written - s.reportedAt + piece.length := by omega
  unfold onBody
  simp only [hok, hfile, hwrites, hpending, Bool.true_eq_false, if_false, true_and]
  split_ifs with hdue
  · exact ⟨_, rfl, rfl, rfl, rfl, rfl, le_rfl, Nat.sub_self _⟩
  · exact ⟨_, rfl, rfl, rfl, rfl, rfl, by simp; omega, hpending⟩

theorem Sink.feed_told (complete : Prop) (s : Sink) (pieces : List Bytes) (hle : s.reportedAt ≤ s.written) :
    ∃ bs : Bytes, bs.length = taken s.writes pieces ∧ (feed (onBody true) s pieces).state.file = s.file.write bs ∧
      (feed (onBody true) s pieces).state.reportedAt ≤ s.written + bs.length ∧
      ((feed (onBody true) s pieces).done = true → (feed (onBody true) s pieces).state.written =
        s.written + bs.length) ∧
      (Told complete (s.written - s.reportedAt) s.writes s.sinceReportMs pieces ↔
        (feed (onBody true) s pieces).done = true ∧ complete ∨
          (feed (onBody true) s pieces).state.reportedAt = s.written + bs.length) := by
  induction pieces generalizing s with
  | nil =>
    refine ⟨[], rfl, (File.write_nil _).symm, hle, fun _ => rfl, ?_⟩
    simp only [Told, feed, List.length_nil, true_and]
    constructor
    · rintro (h | h)
      · exact .inr (by omega)
      · exact .inl h
    · rintro (h | h)
      · exact .inr h
      · exact .inl (by omega)
  | cons piece pieces ih =>
    rw [feed, taken, Told]
    cases hok : (writeFully ⟨[], 0⟩ piece s.writes).ok with
    | false =>
      obtain ⟨t, ht, hfile, hreported⟩ := s.onBody_cut piece hok
      refine ⟨(writeFully ⟨[], 0⟩ piece s.writes).file.bytes, by simp, ?_⟩
      rw [ht]
      refine ⟨hfile, by simp only [hreported]; omega, by simp, ?_⟩
      simp only [hreported, Bool.false_eq_true, if_false, false_and, false_or]
      rw [← List.length_eq_zero_iff]
      omega
    | true =>
      obtain ⟨t, ht, hfile, hwritten, hwrites, hsince, hle', hpending⟩ := s.onBody_kept piece hle hok
      obtain ⟨bs, hlen, hfile', hreported, hall, htold⟩ := ih t hle'
      rw [ht]
      refine ⟨piece ++ bs, ?_, ?_, ?_, ?_, ?_⟩
      · rw [List.length_append, hlen, hwrites, writeFully_whole hok]
        rfl
      · rw [hfile', hfile, File.write_append]
      · rw [hwritten] at hreported
        simpa [Nat.add_assoc] using hreported
      · intro hdone
        rw [hall hdone, hwritten, List.length_append, Nat.add_assoc]
      · rw [hpending, hwrites, hsince, hwritten] at htold
        simpa [Nat.add_assoc] using htold

theorem Sink.onBody_reports (s : Sink) (piece : Bytes) :
    (s.onBody true piece).2.sent = s.sent ∧ (s.onBody true piece).2.reportedAt = s.reportedAt ∨
      ∃ total, (s.onBody true piece).2.sent = s.sent ++ [.bytesReceived (s.onBody true piece).2.reportedAt total] := by
  unfold onBody
  dsimp only
  split_ifs
  · exact .inl ⟨rfl, rfl⟩
  · exact .inr ⟨_, rfl⟩
  · exact .inl ⟨rfl, rfl⟩

theorem Sink.onHeaders_clocks {world : World} {resumeFrom : ℤ} {s t : Sink} {info : ResponseInfo}
    (h : s.onHeaders world resumeFrom true info = (true, t)) :
    t.reportedAt = s.reportedAt ∧ t.sinceReportMs = s.sinceReportMs := by
  unfold onHeaders at h
  dsimp only at h
  split at h
  · cases h
  · split_ifs at h
    · split at h
      · cases h
      · cases h
        exact ⟨rfl, rfl⟩
    · cases h
      exact ⟨rfl, rfl⟩

theorem Sink.accepted_told {world : World} {resumeFrom : ℤ} {bytes : Bytes} {info : ResponseInfo} {t : Sink}
    (h : (world.sink bytes).onHeaders world resumeFrom true info = (true, t)) (complete : Prop) (pieces : List Bytes) :
    ∃ bs : Bytes, bs.length = taken world.writes pieces ∧
      (feed (onBody true) t pieces).state.file.bytes =
        overlay 0 (landing bytes resumeFrom info.startOffset) info.startOffset.toNat bs ∧
      (feed (onBody true) t pieces).state.reportedAt ≤ bs.length ∧
      ((feed (onBody true) t pieces).done = true → (feed (onBody true) t pieces).state.written = bs.length) ∧
      (Told complete 0 world.writes world.sinceReportMs pieces ↔
        (feed (onBody true) t pieces).done = true ∧ complete ∨
          (feed (onBody true) t pieces).state.reportedAt = bs.length) := by
  have hheaders := onHeaders_spec world resumeFrom true (world.sink bytes) info
  rw [h] at hheaders
  obtain ⟨-, hwritten, hwrites, hfile⟩ := hheaders
  obtain ⟨hreported, hsince⟩ := onHeaders_clocks h
  have hzero : (world.sink bytes).reportedAt = 0 ∧ (world.sink bytes).written = 0 := ⟨rfl, rfl⟩
  rw [hzero.1] at hreported
  rw [hzero.2] at hwritten
  obtain ⟨bs, hlen, hstate, hle, hall, htold⟩ := t.feed_told complete pieces (by omega)
  rw [hwritten, Nat.zero_add] at hle hall htold
  rw [hreported, hwrites, hsince] at htold
  rw [hwrites] at hlen
  refine ⟨bs, hlen, ?_, hle, hall, htold⟩
  rw [hstate, hfile]
  rfl

theorem count_is_size {file bs : Bytes} {start : ℤ} {received : ℕ} (hstart : 0 ≤ start) (hle : received ≤ bs.length) :
    start + received = (overlay 0 file start.toNat bs).length ↔
      received = bs.length ∧ file.length ≤ start + bs.length ∧ (bs.length = 0 → start ≤ file.length) := by
  by_cases hbs : bs = []
  · subst hbs
    obtain rfl : received = 0 := Nat.le_zero.mp hle
    simp only [overlay_nil, List.length_nil, true_and, true_imp_iff]
    omega
  · have hpos := List.length_pos_iff.mpr hbs
    rw [overlay_length 0 file start.toNat hbs]
    omega

def World.Complete (world : World) (url : Bytes) (resumeFrom : ℕ) : Prop :=
  ∃ attempt, (world.reply url resumeFrom).attempt = some attempt ∧ attempt.result.error = .ok

/-- What the disk takes of the body is reported, and the file ends with it. -/
structure World.Reports (world : World) (url bytes : Bytes) (info : ResponseInfo) : Prop where
  told : Told (world.Complete url bytes.length) 0 world.writes world.sinceReportMs (world.handed url bytes.length)
  ends : (landing bytes bytes.length info.startOffset).length ≤
    info.startOffset + taken world.writes (world.handed url bytes.length)
  starts : taken world.writes (world.handed url bytes.length) = 0 →
    info.startOffset ≤ (landing bytes bytes.length info.startOffset).length

end BinderDownload.HttpService

namespace BinderDownload.DownloadService

open Text Http Files HttpService

section Relay

variable {job : Job} {sinceMs : ℕ → ℤ} {c : Counters}

theorem Counters.relayAll_cons (at' : ℕ) (message : Progress) (messages : List Progress) :
    c.relayAll job sinceMs at' (message :: messages) =
      (((c.relay job (sinceMs at') message).1.relayAll job sinceMs (at' + 1) messages).1,
        (c.relay job (sinceMs at') message).2 ++
          ((c.relay job (sinceMs at') message).1.relayAll job sinceMs (at' + 1) messages).2) := rfl

theorem Counters.relayAll_append (at' : ℕ) (xs ys : List Progress) :
    c.relayAll job sinceMs at' (xs ++ ys) =
      (((c.relayAll job sinceMs at' xs).1.relayAll job sinceMs (at' + xs.length) ys).1,
        (c.relayAll job sinceMs at' xs).2 ++
          ((c.relayAll job sinceMs at' xs).1.relayAll job sinceMs (at' + xs.length) ys).2) := by
  induction xs generalizing at' c with
  | nil => rfl
  | cons x xs ih =>
    rw [List.cons_append, relayAll_cons, relayAll_cons, ih]
    simp [Nat.add_assoc, Nat.add_comm 1]

theorem Counters.relayAll_canceled (at' : ℕ) (messages : List Progress) (n : ℤ) :
    .canceled n ∉ (c.relayAll job sinceMs at' messages).2 := by
  induction messages generalizing at' c with
  | nil => exact List.not_mem_nil
  | cons message messages ih =>
    rw [relayAll_cons]
    intro h
    rcases List.mem_append.mp h with h | h
    · cases message with
      | responseStart code startOffset totalBytes contentType =>
        simp only [Counters.relay] at h
        split_ifs at h <;> simp at h
      | bytesReceived received total =>
        simp only [Counters.relay] at h
        split_ifs at h <;> simp at h
    · exact ih _ h

structure Counters.Counts (c : Counters) (start : ℤ) (received : ℕ) : Prop where
  resumedFrom : c.resumedFrom = start
  downloaded : c.downloaded = start + received

theorem Counters.Counts.count {start : ℤ} {received : ℕ} (h : c.Counts start received) (since total : ℤ) (more : ℕ) :
    (c.relay job since (.bytesReceived more total)).1.Counts start more := by
  simp only [Counters.relay]
  split_ifs <;> exact ⟨h.resumedFrom, by rw [← h.resumedFrom]⟩

/-- The relay has heard what the sink has reported. -/
def Hears (job : Job) (sinceMs : ℕ → ℤ) (c : Counters) (info : ResponseInfo) (s : Sink) : Prop :=
  (c.relayAll job sinceMs 0 s.sent).1.Counts info.startOffset s.reportedAt

theorem Counters.Counts.last {sent : List Progress} {start : ℤ} {received : ℕ}
    (h : (c.relayAll job sinceMs 0 sent).1.Counts start received) (total : ℤ) (more : ℕ) :
    (c.relayAll job sinceMs 0 (sent ++ [.bytesReceived more total])).1.Counts start more := by
  rw [Counters.relayAll_append]
  exact h.count _ total more

theorem Hears.onBody {info : ResponseInfo} (s : Sink) (piece : Bytes) (h : Hears job sinceMs c info s) :
    Hears job sinceMs c info (s.onBody true piece).2 := by
  unfold Hears at h ⊢
  rcases s.onBody_reports piece with ⟨hsent, hreported⟩ | ⟨total, hsent⟩
  · rw [hsent, hreported]
    exact h
  · rw [hsent]
    exact h.last total _

theorem Hears.start {world : World} {resumeFrom : ℤ} {bytes : Bytes} {info : ResponseInfo} {t : Sink}
    (h : (world.sink bytes).onHeaders world resumeFrom true info = (true, t)) (hreported : t.reportedAt = 0) :
    Hears job sinceMs c info t := by
  obtain ⟨-, -, hsent⟩ := Sink.onHeaders_sent h
  unfold Hears
  rw [hsent, hreported]
  exact ⟨rfl, (add_zero _).symm⟩

theorem Hears.conclude {info : ResponseInfo} {s : Sink} (h : Hears job sinceMs c info s) (result : Option Result) :
    (∀ r, result = some r → r.error ≠ .ok) ∧
        (c.relayAll job sinceMs 0 (Sink.conclude true (result, s)).sent).1.Counts info.startOffset s.reportedAt ∨
      (∃ r, result = some r ∧ r.error = .ok) ∧
        (c.relayAll job sinceMs 0 (Sink.conclude true (result, s)).sent).1.Counts info.startOffset s.written := by
  by_cases hok : ∃ r, result = some r ∧ r.error = .ok
  · right
    obtain ⟨r, rfl, hr⟩ := hok
    refine ⟨⟨r, rfl, hr⟩, ?_⟩
    simp only [Sink.conclude, hr, ne_eq, not_true_eq_false, if_false]
    exact h.last s.total s.written
  · left
    push Not at hok
    rw [(@Sink.conclude_failed true result s hok).1]
    exact ⟨hok, h⟩

theorem Hears.concluded {info : ResponseInfo} {s : Sink} (h : Hears job sinceMs c info s) {result : Option Result}
    {done : Bool} {complete told : Prop} {length : ℕ} (hle : s.reportedAt ≤ length)
    (hall : done = true → s.written = length)
    (hresult : (∃ r, result = some r ∧ r.error = .ok) ↔ done = true ∧ complete)
    (htold : told ↔ done = true ∧ complete ∨ s.reportedAt = length) :
    ∃ received : ℕ,
      (c.relayAll job sinceMs 0 (Sink.conclude true (result, s)).sent).1.Counts info.startOffset received ∧
      received ≤ length ∧ (received = length ↔ told) ∧
      ∀ written, (Sink.conclude true (result, s)).status = some (.ok written) → written = received := by
  rcases h.conclude result with ⟨hfails, hcounts⟩ | ⟨hok, hcounts⟩
  · have hnot : ¬(done = true ∧ complete) := by
      intro hgood
      obtain ⟨r, hr, hrok⟩ := hresult.mpr hgood
      exact hfails r hr hrok
    refine ⟨_, hcounts, hle, ?_, fun n hn => absurd hn ((@Sink.conclude_failed true result s hfails).2 n)⟩
    rw [htold]
    exact ⟨.inr, fun h => h.resolve_left hnot⟩
  · have hgood := hresult.mp hok
    refine ⟨_, hcounts, (hall hgood.1).le, ?_, fun n hn => (Sink.conclude_ok hn).1⟩
    rw [htold]
    exact ⟨fun _ => .inl hgood, fun _ => hall hgood.1⟩

theorem fetchToFd_counts (job : Job) (sinceMs : ℕ → ℤ) (world : World) (bytes : Bytes)
    (hc : c.downloaded = bytes.length) :
    ((c.relayAll job sinceMs 0 (fetchToFd job.url bytes.length true world bytes).sent).1.downloaded =
        (fetchToFd job.url bytes.length true world bytes).bytes.length ↔
      ∀ info, world.response job.url bytes.length = some info → ¬world.Refuses bytes.length info →
        world.Reports job.url bytes info) ∧
      ∀ written, (fetchToFd job.url bytes.length true world bytes).status = some (.ok written) →
        (c.relayAll job sinceMs 0 (fetchToFd job.url bytes.length true world bytes).sent).1.resumedFrom + written =
          (c.relayAll job sinceMs 0 (fetchToFd job.url bytes.length true world bytes).sent).1.downloaded := by
  cases fetchToFd_course job.url bytes.length true world bytes with
  | barren refused kept silent idle fails =>
    rw [kept, silent]
    refine ⟨⟨fun _ info hsome hnot => ?_, fun _ => hc⟩, fun n hn => absurd hn (fails n)⟩
    by_cases hd : world.descriptor = true
    · rw [world.response_announced job.url bytes.length hd] at hsome
      exact absurd ((Sink.onHeaders_refuses _ _ _ _ _).mp (refused info hd hsome)) hnot
    · rw [World.response, if_pos (by simpa using hd)] at hsome
      cases hsome
  | fruitful info t fed result hd ha hc hfed hflat hdone hcut hfetch hacts =>
    have hheaders := Sink.onHeaders_spec world bytes.length true (world.sink bytes) info
    have hrefuses := Sink.onHeaders_refuses world bytes.length true (world.sink bytes) info
    rw [hc] at hheaders hrefuses
    obtain ⟨hreported, -⟩ := Sink.onHeaders_clocks hc
    obtain ⟨bs, hlen, hfile, hle, hall, htold⟩ :=
      Sink.accepted_told hc (world.Complete job.url bytes.length) (world.handed job.url bytes.length)
    have hears : Hears job sinceMs c info (feed (Sink.onBody true) t (world.handed job.url bytes.length)).state :=
      feed_invariant Hears.onBody (Hears.start hc hreported) _
    rw [Sink.feed_logged world bytes.length true t ((world.sink bytes).news t), hfed] at hfile hle hall htold hears
    dsimp only at hfile hle hall htold hears
    have hbytes : (fetchToFd job.url bytes.length true world bytes).bytes =
        overlay 0 (landing bytes bytes.length info.startOffset) info.startOffset.toNat bs := by
      rw [hfetch, Sink.conclude_bytes, hfile]
    have hresult : (∃ r, result = some r ∧ r.error = .ok) ↔
        fed.done = true ∧ world.Complete job.url bytes.length := by
      constructor
      · rintro ⟨r, hr, hrok⟩
        have hfull : fed.done = true := by
          by_contra hnot
          exact hcut (by simpa using hnot) r hr hrok
        obtain ⟨attempt, hattempt, rfl⟩ := Option.map_eq_some_iff.mp ((hdone hfull).symm.trans hr)
        exact ⟨hfull, attempt, hattempt, hrok⟩
      · rintro ⟨hfull, attempt, hattempt, hrok⟩
        exact ⟨attempt.result, by rw [hdone hfull, hattempt]; rfl, hrok⟩
    obtain ⟨received, hcounts, hreceived, hwhole, hok⟩ := hears.concluded hle hall hresult htold
    rw [← hfetch] at hcounts hok
    have hplaced (info' : ResponseInfo) (hsome : world.response job.url bytes.length = some info') : info' = info := by
      rw [world.response_announced job.url bytes.length hd, ha] at hsome
      exact (Option.some.inj hsome).symm
    have hsize := @count_is_size (landing bytes bytes.length info.startOffset) bs _ received hheaders.1 hreceived
    rw [← hbytes, ← hcounts.downloaded, hwhole, hlen] at hsize
    rw [hcounts.resumedFrom, hcounts.downloaded] at *
    refine ⟨hsize.trans ⟨fun h info' hsome _ => ?_, fun h => ?_⟩, fun written h => by rw [hok written h]⟩
    · obtain ⟨htold, hends, hstarts⟩ := h
      obtain rfl := hplaced info' hsome
      exact ⟨htold, hends, hstarts⟩
    · have hresponse : world.response job.url bytes.length = some info := by
        rw [world.response_announced job.url bytes.length hd, ha]
      obtain ⟨htold, hends, hstarts⟩ := h info hresponse (fun hr => by simpa using hrefuses.mpr hr)
      exact ⟨htold, hends, hstarts⟩

end Relay

section Part

variable {job : Job} {env : Env} {fs fs1 fs2 : Fs}

theorem unlink_fileSize (fs : Fs) (path : Bytes) (denied : Bool) (hempty : fs.fileSize path = 0) :
    (fs.unlink path denied).fileSize path = 0 := by
  rcases fs.unlink_cases path denied with h | ⟨-, h⟩
  · rw [h, hempty]
  · rw [h, Fs.fileSize]
    split
    · rfl
    · rename_i loc hr
      obtain rfl := Fs.resolve_ok hr
      simp [Fs.remove, Fs.relocate]

theorem fail_fileSize (counters : Counters) (code : ErrorCode) (message : Bytes) :
    (fail job env counters fs code message).fs.fileSize job.partPath = fs.fileSize job.partPath := by
  unfold fail
  dsimp only
  split_ifs with hempty
  · rw [unlink_fileSize fs job.partPath env.unlinkDenied hempty, hempty]
  · rfl

theorem parentless_fileSize {error : Bytes}
    (parent : ensureParentDir job.destPath env.mkdirError fs = (some error, fs1)) : fs1.fileSize job.partPath = 0 := by
  cases hslash : rfind 47 job.destPath with
  | none => simp [ensureParentDir, hslash] at parent
  | some slash =>
    obtain ⟨dir, name, hpath, -, hdir⟩ := rfind_some hslash
    rcases slash with _ | n
    · simp [ensureParentDir, hslash] at parent
    · simp only [ensureParentDir, hslash] at parent
      obtain ⟨p, hp, herror⟩ := makeDirs_stopped parent
      have hne : p ≠ [] := by
        rintro rfl
        simp [makeDir] at herror
      rw [hpath, hdir, List.take_left] at hp
      obtain ⟨rest, hrest⟩ : ∃ rest, job.partPath = p ++ 47 :: rest := by
        rw [Job.partPath, partOf, hpath]
        rcases hp with rfl | ⟨rest, rfl⟩
        · exact ⟨name ++ ascii ".part", by simp⟩
        · exact ⟨rest ++ 47 :: (name ++ ascii ".part"), by simp⟩
      rw [Fs.fileSize]
      split
      · rfl
      · rename_i loc hr
        have hfree {q : Bytes} (hreach : fs1.Reaches q) (hq : makeDir q env.mkdirError fs1 = .error error) :
            fs1.node (locate fs1.cwd q) = none := by
          by_contra hnode
          rw [makeDir_reached hreach fun hfree => hnode hfree.2] at hq
          cases hq
        by_cases hnul : (0 : UInt8) ∈ p
        · -- the system gets the same of both paths
          have hcut : cStr job.partPath = cStr p := by rw [hrest, cStr_cut hnul]
          have hp : fs1.resolve p = .ok loc := by rw [← Fs.resolve_cStr, ← hcut, Fs.resolve_cStr, hr]
          rw [Fs.resolve_ok hp, hfree (Fs.reaches_of_resolve hp) herror]
        · rw [hrest] at hr
          have hdir := Fs.resolve_front hne hnul hr
          obtain ⟨hreach, hisDir⟩ := hdir.reaches (.inl rfl) hne hnul
          rw [makeDir_reached hreach fun hfree => by rw [hfree.1] at hisDir; cases hisDir] at herror
          cases herror

theorem opened_fileSize {ino : ℕ} (opened : fs1.openWrite job.partPath env.openError = .ok (ino, fs2)) :
    fs2.fileSize job.partPath = fs1.fileSize job.partPath := by
  have h := openWrite_opened opened
  rw [Fs.fileSize_resolved ((Fs.openWrite_sameDirs opened).resolve (Fs.openWrite_ok opened).1), h.size, ← h.leftover]
  rfl

end Part

section Stopped

variable (job : Job) (env : Env) (fs : Fs)

structure Counted (out : Outcome) : Prop where
  downloaded : out.counters.downloaded = out.fs.fileSize job.partPath
  canceled : ∀ n : ℤ, .canceled n ∈ out.calls → n = out.fs.fileSize job.partPath

variable {job env fs}

theorem counted_iff {out : Outcome} (h : ∀ n : ℤ, .canceled n ∈ out.calls → n = out.counters.downloaded) :
    Counted job out ↔ out.counters.downloaded = out.fs.fileSize job.partPath := by
  constructor
  · exact fun hcounted => hcounted.downloaded
  · exact fun hsize => ⟨hsize, fun n hn => (h n hn).trans hsize⟩

theorem fail_calls (counters : Counters) (code : ErrorCode) (message : Bytes) (n : ℤ) :
    .canceled n ∉ (fail job env counters fs code message).calls := by
  unfold fail
  dsimp only
  split_ifs <;> simp

theorem cancelDone_calls (counters : Counters) (n : ℤ) (h : .canceled n ∈ (cancelDone job counters fs).calls) :
    n = counters.downloaded := by
  unfold cancelDone at h
  dsimp only at h
  split_ifs at h
  · simpa using h
  · cases h

structure Stops (job : Job) (count : ℤ) (size : ℕ) (out : Outcome) : Prop where
  downloaded : out.counters.downloaded = count
  part : out.fs.fileSize job.partPath = size
  canceled : ∀ n : ℤ, .canceled n ∈ out.calls → n = count

theorem Stops.counted {count : ℤ} {size : ℕ} {out : Outcome} (h : Stops job count size out) :
    Counted job out ↔ count = size := by
  obtain ⟨rfl, rfl, hcanceled⟩ := h
  exact counted_iff hcanceled

theorem fail_stops (counters : Counters) (code : ErrorCode) (message : Bytes) :
    Stops job counters.downloaded (fs.fileSize job.partPath) (fail job env counters fs code message) :=
  ⟨rfl, fail_fileSize counters code message, fun n hn => absurd hn (fail_calls counters code message n)⟩

theorem cancelDone_stops (counters : Counters) :
    Stops job counters.downloaded (fs.fileSize job.partPath) (cancelDone job counters fs) :=
  ⟨rfl, rfl, cancelDone_calls counters⟩

theorem Replies.stops {counters : Counters} {status : Option Status} {out : Outcome}
    (h : Replies job env counters fs status out)
    (hwhole : ∀ written, status = some (.ok written) → counters.resumedFrom + written = counters.downloaded)
    (hstopped : out.state = .failed ∨ out.state = .canceled) :
    Stops job counters.downloaded (fs.fileSize job.partPath) out := by
  cases h with
  | waiting reply goes => rcases hstopped with h | h <;> cases h
  | canceled aborts => exact cancelDone_stops counters
  | failed code message goes => exact fail_stops counters code message
  | completed written reply goes =>
    unfold complete at hstopped ⊢
    cases hr : fs.rename job.partPath job.destPath env.renameError with
    | error e =>
      dsimp only
      rw [← hwhole written reply]
      exact fail_stops { counters with downloaded := counters.resumedFrom + written } _ _
    | ok fs' =>
      rw [hr] at hstopped
      rcases hstopped with h | h <;> cases h

theorem transfer_stops {fs1 fs2 : Fs} {ino : ℕ} {fetched : Fetched} {counters : Counters}
    (opened : fs1.openWrite job.partPath env.openError = .ok (ino, fs2))
    (hfetch : fetchToFd job.url (fs1.fileSize job.partPath) true env.world (fs2.data ino) = fetched)
    (hrelay : ((measured job fs1).relayAll job env.sinceMs 0 fetched.sent).1 = counters)
    (hdelivered : fetched.sent.length ≤ env.relayed)
    (hwhole : ∀ written, fetched.status = some (.ok written) → counters.resumedFrom + written = counters.downloaded)
    (hstopped : (transfer job env (fs1.fileSize job.partPath) ino fs2).state = .failed ∨
      (transfer job env (fs1.fileSize job.partPath) ino fs2).state = .canceled) :
    Stops job counters.downloaded fetched.bytes.length (transfer job env (fs1.fileSize job.partPath) ino fs2) := by
  have h := openWrite_opened opened
  obtain ⟨c, out, hout, hstate, hfs, hall⟩ := transfer_replies job env (fs1.fileSize job.partPath) ino fs2
  rw [hfetch] at hout hall
  obtain ⟨hrelayed, hcounters, hcalls⟩ := hall hdelivered
  obtain rfl : c = counters := hrelayed.trans hrelay
  rw [hstate] at hstopped
  have hpart : (fs2.setData ino fetched.bytes).fileSize job.partPath = fetched.bytes.length := by
    have hdirs := (Fs.openWrite_sameDirs opened).trans (Fs.setData_sameDirs fs2 ino fetched.bytes)
    rw [Fs.fileSize_resolved (hdirs.resolve (Fs.openWrite_ok opened).1)]
    exact congrArg List.length (h.leftover_setData fetched.bytes)
  obtain ⟨hdownloaded, hsize, hcanceled⟩ := hout.stops hwhole hstopped
  refine ⟨by rw [hcounters, hdownloaded], by rw [hfs, hsize, hpart], fun n hn => ?_⟩
  rw [hcalls] at hn
  exact hcanceled n ((List.mem_append.mp hn).resolve_left (Counters.relayAll_canceled 0 fetched.sent n))

theorem runTask_counts (job : Job) (env : Env) (fs : Fs) (hdelivered : (fetchOf job env fs).sent.length ≤ env.relayed)
    (hstopped : (runTask job env fs).state = .failed ∨ (runTask job env fs).state = .canceled) :
    Counted job (runTask job env fs) ↔
      (Fetching job env fs → ∀ info, env.world.response job.url (leftover job fs).length = some info →
        ¬env.world.Refuses (leftover job fs).length info → env.world.Reports job.url (leftover job fs) info) := by
  have hways := runTask_attempts job env fs
  generalize runTask job env fs = out at hways hstopped ⊢
  cases hways with
  | parentless error parent =>
    have hno : ¬Fetching job env fs := fun h => parentless_unasked parent h.toAsked
    rw [(fail_stops _ _ _).counted, parentless_fileSize parent]
    simp [hno]
  | unopened counters message parent opened known =>
    have hno : ¬Fetching job env fs := fun h => unopened_unasked parent opened h.toAsked
    rw [(fail_stops _ _ _).counted, known]
    simp [hno, measured]
  | failed counters code message parent opened cause known =>
    have hno : ¬Fetching job env fs := failed_unfetched cause
    rw [(fail_stops _ _ _).counted, known, opened_fileSize opened]
    simp [hno, measured]
  | canceled counters parent opened http requestId early known =>
    have hno : ¬Fetching job env fs := canceled_unfetched early
    rw [(cancelDone_stops _).counted, known, opened_fileSize opened]
    simp [hno, measured]
  | transferred parent opened http requestId early dup =>
    rename_i fs1 fs2 ino
    have hfetching : Fetching job env fs := ⟨asked_of parent opened http requestId, early, dup⟩
    have h := openWrite_opened opened
    have hmeasured : (measured job fs1).downloaded = (leftover job fs).length := by
      rw [measured, h.size, leftover_parent parent]
    obtain ⟨hcount, hwhole⟩ := fetchToFd_counts job env.sinceMs env.world (leftover job fs) hmeasured
    rw [(transfer_stops opened (fetchOf_opened parent opened) rfl hdelivered hwhole hstopped).counted]
    exact hcount.trans ⟨fun h _ => h, fun h => h hfetching⟩

def Env.closing (segment : Segment) (sinceReportMs : List ℤ) : Env where
  world := { net := ⟨fun _ => .connected ⟨[.wrote 8192], [⟨false, .data segment⟩, ⟨false, .closed⟩]⟩, fun _ => false⟩
             sinceReportMs }
  relayed := 2

theorem runTask_counts_reported :
    let job : Job := ⟨1, ascii "http://h/f", ascii "f", true, by decide, by decide, by decide⟩
    let bytes := ascii "HTTP/1.1 200 OK" ++ crlf ++ ascii "Content-Length: 5" ++ crlf ++ crlf ++ ascii "hi"
    let env := Env.closing ⟨bytes, by decide +kernel, by decide +kernel⟩ [200]
    let fs := Fs.lone (ascii "other") []
    (runTask job env fs).state = .failed ∧ Counted job (runTask job env fs) := by
  intro job bytes env fs
  have hstate : (runTask job env fs).state = .failed := by decide +kernel
  refine ⟨hstate, (runTask_counts job env fs (by decide +kernel) (.inl hstate)).mpr fun _ info hinfo _ => ?_⟩
  have hempty : leftover job fs = [] := by decide +kernel
  have hhanded : env.world.handed job.url 0 = [ascii "hi"] := by decide +kernel
  have hstart : (env.world.response job.url 0).map (fun info => info.startOffset) = some 0 := by decide +kernel
  rw [hempty] at hinfo ⊢
  rw [List.length_nil] at hinfo
  rw [hinfo] at hstart
  have hzero : info.startOffset = 0 := Option.some.inj hstart
  refine ⟨?_, ?_, ?_⟩
  · rw [List.length_nil, hhanded]
    have hdone : (writeFully ⟨[], 0⟩ (ascii "hi") env.world.writes).ok = true := by decide +kernel
    have hdue : kProgressIntervalMs ≤ env.world.sinceReportMs.headD 0 := by decide +kernel
    simp only [Told, hdone, hdue, or_true, if_true, true_or]
  · rw [List.length_nil, hhanded, hzero]
    decide +kernel
  · rw [List.length_nil, hhanded, hzero]
    decide +kernel

theorem runTask_counts_short :
    let job : Job := ⟨1, ascii "http://h/f", ascii "f", true, by decide, by decide, by decide⟩
    let bytes := ascii "HTTP/1.1 200 OK" ++ crlf ++ ascii "Content-Length: 5" ++ crlf ++ crlf ++ ascii "hi"
    let env := Env.closing ⟨bytes, by decide +kernel, by decide +kernel⟩ [100]
    let fs := Fs.lone (ascii "other") []
    (runTask job env fs).state = .failed ∧ (fetchOf job env fs).sent.length ≤ env.relayed ∧
      ¬Counted job (runTask job env fs) := by
  intro job bytes env fs
  refine ⟨by decide +kernel, by decide +kernel, fun h => ?_⟩
  have hdownloaded : (runTask job env fs).counters.downloaded = 0 := by decide +kernel
  have hpart : (runTask job env fs).fs.fileSize job.partPath = 2 := by decide +kernel
  have hcount := h.downloaded
  rw [hdownloaded, hpart] at hcount
  cases hcount

end Stopped

end BinderDownload.DownloadService
