import BinderDownload.Service.Fetch

namespace BinderDownload.HttpService

open Text Http Files

def marks (written : ℕ) : List Bytes → List ℕ
  | [] => []
  | piece :: pieces => (written + piece.length) :: marks (written + piece.length) pieces

theorem Sink.onBody_sent {s t : Sink} {piece : Bytes} (h : s.onBody true piece = (true, t)) :
    t.total = s.total ∧ t.written = s.written + piece.length ∧
      (t.sent = s.sent ∨ t.sent = s.sent ++ [.bytesReceived (s.written + piece.length : ℕ) s.total]) := by
  unfold onBody at h
  dsimp only at h
  split_ifs at h
  all_goals cases h
  · simp [send]
  · simp

theorem Sink.onBody_refused {s t : Sink} {piece : Bytes} (h : s.onBody true piece = (false, t)) :
    t.total = s.total ∧ t.written = s.written ∧ t.sent = s.sent := by
  unfold onBody at h
  dsimp only at h
  split_ifs at h
  · cases h
    exact ⟨rfl, rfl, rfl⟩
  · simp at h
  · simp at h

theorem Sink.feed_sent (s : Sink) (pieces : List Bytes) :
    (feed (onBody true) s pieces).state.total = s.total ∧
      ∃ ms : List ℕ, (∀ m ∈ ms, m ∈ marks s.written pieces) ∧
        (feed (onBody true) s pieces).state.sent = s.sent ++ ms.map (fun m => .bytesReceived m s.total) := by
  induction pieces generalizing s with
  | nil => exact ⟨rfl, [], by simp, by simp [feed]⟩
  | cons piece pieces ih =>
    rw [feed]
    rcases hb : s.onBody true piece with ⟨_ | _, t⟩
    · obtain ⟨htotal, -, hsent⟩ := onBody_refused hb
      exact ⟨htotal, [], by simp, by simpa using hsent⟩
    · obtain ⟨htotal, hwritten, hsent⟩ := onBody_sent hb
      obtain ⟨htotal', ms, hms, hsent'⟩ := ih t
      rw [htotal] at htotal' hsent'
      rw [hwritten] at hms
      refine ⟨htotal', ?_⟩
      rcases hsent with hsent | hsent
      · exact ⟨ms, fun m hm => List.mem_cons_of_mem _ (hms m hm), by rw [hsent', hsent]⟩
      · refine ⟨(s.written + piece.length) :: ms, ?_, ?_⟩
        · intro m hm
          rcases List.mem_cons.mp hm with rfl | hm
          · exact List.mem_cons_self
          · exact List.mem_cons_of_mem _ (hms m hm)
        · simp only [hsent', hsent, List.map_cons, List.append_assoc, List.singleton_append]

theorem mem_marks_le {written m : ℕ} {pieces : List Bytes} (h : m ∈ marks written pieces) :
    m ≤ written + pieces.flatten.length := by
  induction pieces generalizing written with
  | nil => cases h
  | cons piece pieces ih =>
    rw [List.flatten_cons, List.length_append]
    rcases List.mem_cons.mp h with rfl | h
    · omega
    · have := ih h
      omega

theorem Sink.onHeaders_sent {world : World} {resumeFrom : ℤ} {s t : Sink} {info : ResponseInfo}
    (h : s.onHeaders world resumeFrom true info = (true, t)) :
    t.total = info.totalBytes ∧ t.written = s.written ∧
      t.sent = s.sent ++ [.responseStart info.statusCode info.startOffset info.totalBytes info.contentType] := by
  unfold onHeaders at h
  dsimp only at h
  split at h
  · cases h
  · split_ifs at h
    · split at h
      · cases h
      · cases h
        exact ⟨rfl, rfl, rfl⟩
    · cases h
      exact ⟨rfl, rfl, rfl⟩

def messagesOf (info : ResponseInfo) (ms : List ℕ) : List Progress :=
  .responseStart info.statusCode info.startOffset info.totalBytes info.contentType ::
    ms.map (fun m : ℕ => .bytesReceived m info.totalBytes)

theorem fetchToFd_sent (url : Bytes) (resumeFrom : ℕ) (world : World) (bytes : Bytes) :
    (fetchToFd url resumeFrom true world bytes).sent = [] ∧
        (∀ n, (fetchToFd url resumeFrom true world bytes).status ≠ some (.ok n)) ∨
      ∃ info ms, (world.reply url resumeFrom).announced = some info ∧ 0 ≤ info.startOffset ∧
        (fetchToFd url resumeFrom true world bytes).sent = messagesOf info ms ∧
        (∀ m ∈ ms, m ≤ (world.reply url resumeFrom).body.length) ∧
        ∀ n, (fetchToFd url resumeFrom true world bytes).status = some (.ok n) → n ∈ ms := by
  have hspec := fetchToFd_spec url resumeFrom true world bytes
  cases fetchToFd_course url resumeFrom true world bytes with
  | barren refused kept silent idle fails => exact .inl ⟨silent, fails⟩
  | fruitful info t fed result hd ha hc hfed hflat hdone hcut hfetch =>
    have hheaders := Sink.onHeaders_spec world resumeFrom true (world.sink bytes) info
    rw [hc] at hheaders
    obtain ⟨htotal, hwritten, hsent⟩ := Sink.onHeaders_sent hc
    have hstate : (feed (Sink.onBody true) t (world.handed url resumeFrom)).state = fed.state.1 := by
      rw [Sink.feed_logged world resumeFrom true t ((world.sink bytes).news t), hfed]
    obtain ⟨htotal', ms, hms, hsent'⟩ := Sink.feed_sent t (world.handed url resumeFrom)
    rw [hstate] at htotal' hsent'
    have hbody (m : ℕ) (hm : m ∈ ms) : m ≤ (world.reply url resumeFrom).body.length := by
      have hle := mem_marks_le (hms m hm)
      rw [hwritten, hflat] at hle
      exact hle.trans (Nat.zero_add _).le
    have hmessages : fed.state.1.sent = messagesOf info ms := by
      rw [hsent', hsent, htotal]
      simp [messagesOf, World.sink]
    right
    rw [hfetch] at hspec ⊢
    rcases @Sink.conclude_sent true result fed.state.1 with ⟨hkept, hfail⟩ | ⟨hlast, hok⟩
    · exact ⟨info, ms, ha, hheaders.1, hkept.trans hmessages, hbody, fun n hn => absurd hn (hfail n)⟩
    · refine ⟨info, ms ++ [fed.state.1.written], ha, hheaders.1, ?_, ?_, ?_⟩
      · rw [hlast]
        simp [Sink.send, hmessages, htotal', htotal, messagesOf]
      · intro m hm
        rcases List.mem_append.mp hm with hm | hm
        · exact hbody m hm
        · rcases hspec with ⟨-, hfail⟩ | ⟨info', taken, -, -, -, -, hall⟩
          · exact absurd hok (hfail _)
          · rw [List.mem_singleton.mp hm, (hall _ hok).2.1]
      · intro n hn
        rw [hok] at hn
        cases hn
        exact List.mem_append_right _ List.mem_cons_self

theorem fetchToFd_silent {url : Bytes} {resumeFrom : ℕ} {world : World} {bytes : Bytes}
    (h : (fetchToFd url resumeFrom true world bytes).sent = []) :
    (fetchToFd url resumeFrom true world bytes).bytes = bytes := by
  cases fetchToFd_course url resumeFrom true world bytes with
  | barren refused kept silent idle fails => exact kept
  | fruitful info t fed result hd ha hc hfed hflat hdone hcut hfetch =>
    obtain ⟨-, -, hsent⟩ := Sink.onHeaders_sent hc
    have hstate : (feed (Sink.onBody true) t (world.handed url resumeFrom)).state = fed.state.1 := by
      rw [Sink.feed_logged world resumeFrom true t ((world.sink bytes).news t), hfed]
    obtain ⟨-, ms, -, hsent'⟩ := Sink.feed_sent t (world.handed url resumeFrom)
    rw [hstate, hsent] at hsent'
    rw [hfetch] at h
    rcases @Sink.conclude_sent true result fed.state.1 with ⟨hkept, -⟩ | ⟨hlast, -⟩
    · rw [hkept, hsent'] at h
      simp at h
    · rw [hlast] at h
      simp [Sink.send] at h

end BinderDownload.HttpService
