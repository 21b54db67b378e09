import BinderDownload.Service.Acts

namespace BinderDownload.HttpService

open Text Http Files

/-- No count runs ahead of the bytes that have been written when it is sent. -/
def Timely (acts : List Act) : Prop :=
  ∀ (front : List Act) (received total : ℤ) (rest : List Act),
    acts = front ++ .sent (.bytesReceived received total) :: rest → received ≤ (bytesOf front).length

section Timely

variable {acts more : List Act}

theorem timely_nil : Timely [] := by
  intro front received total rest h
  simp at h

theorem Timely.append (h : Timely acts)
    (hmore : ∀ (front : List Act) (received total : ℤ) (rest : List Act),
      more = front ++ .sent (.bytesReceived received total) :: rest → received ≤ (bytesOf (acts ++ front)).length) :
    Timely (acts ++ more) := by
  intro front received total rest hsplit
  rcases List.append_eq_append_iff.mp hsplit with ⟨behind, rfl, hrest⟩ | ⟨behind, hacts, hrest⟩
  · exact hmore behind received total rest hrest
  · cases behind with
    | nil =>
      rw [List.append_nil] at hacts
      subst hacts
      have hle := hmore [] received total rest hrest.symm
      rwa [List.append_nil] at hle
    | cons act behind =>
      rw [List.cons_append] at hrest
      obtain ⟨rfl, -⟩ := List.cons_eq_cons.mp hrest
      exact h front received total behind hacts

theorem Timely.append_silent (h : Timely acts) (hsilent : sentOf more = []) : Timely (acts ++ more) := by
  apply h.append
  rintro front received total rest rfl
  rw [sentOf_append] at hsilent
  exact absurd (List.append_eq_nil_iff.mp hsilent).2 (by simp [sentOf])

theorem Timely.count (h : Timely acts) {received total : ℤ} (hle : received ≤ (bytesOf acts).length) :
    Timely (acts ++ [.sent (.bytesReceived received total)]) := by
  apply h.append
  intro front received' total' rest hone
  cases front with
  | nil =>
    cases hone
    rwa [List.append_nil]
  | cons act front => simp at hone

end Timely

structure Follows (info : ResponseInfo) (s : Sink × List Act) : Prop where
  total : s.1.total = info.totalBytes
  written : s.1.written ≤ (bytesOf s.2).length
  sent : s.1.sent = sentOf s.2
  timely : Timely s.2
  counts : ∃ ms : List ℕ, s.1.sent = messagesOf info ms ∧ ms.Pairwise (· ≤ ·) ∧ ∀ m ∈ ms, m ≤ s.1.written

@[simp] theorem bytesOf_singleton (message : Progress) : bytesOf [.sent message] = [] := rfl

theorem Sink.news_same {s t : Sink} (h : t.sent = s.sent) : s.news t = [] := by simp [news, h]

theorem Sink.news_one {s t : Sink} {message : Progress} (h : t.sent = s.sent ++ [message]) :
    s.news t = [.sent message] := by simp [news, h]

theorem messagesOf_snoc (info : ResponseInfo) (ms : List ℕ) (m : ℕ) :
    messagesOf info (ms ++ [m]) = messagesOf info ms ++ [.bytesReceived m info.totalBytes] := by simp [messagesOf]

theorem pairwise_snoc {ms : List ℕ} {m : ℕ} (h : ms.Pairwise (· ≤ ·)) (hle : ∀ x ∈ ms, x ≤ m) :
    (ms ++ [m]).Pairwise (· ≤ ·) := by
  rw [List.pairwise_append]
  refine ⟨h, List.pairwise_singleton _ _, fun x hx y hy => ?_⟩
  rw [List.mem_singleton.mp hy]
  exact hle x hx

theorem Follows.onBody {info : ResponseInfo} {world : World} {resumeFrom : ℤ} (s : Sink × List Act) (data : Bytes)
    (h : Follows info s) : Follows info ((Sink.logged world resumeFrom true).onBody s data).2 := by
  obtain ⟨s, acts⟩ := s
  obtain ⟨htotal, hwritten, hsent, htimely, ms, hms, hsorted, hbound⟩ := h
  obtain ⟨hsilent, -, -, -⟩ := writeActs_spec s.file data s.writes
  have hstep : (Sink.logged world resumeFrom true).onBody (s, acts) data =
      ((s.onBody true data).1, (s.onBody true data).2,
        acts ++ (writeActs data s.writes ++ s.news (s.onBody true data).2)) := rfl
  have hok := (s.onBody_acts true data).2
  dsimp only at htotal hwritten hsent htimely hms hbound
  rw [hstep]
  rcases hb : s.onBody true data with ⟨_ | _, t⟩
  · obtain ⟨ht, hw, hs⟩ := Sink.onBody_refused hb
    rw [Sink.news_same hs, List.append_nil]
    exact ⟨ht.trans htotal, by simp [hw]; omega, by simp [hs, hsent, hsilent], htimely.append_silent hsilent,
      ms, hs.trans hms, hsorted, hw ▸ hbound⟩
  · rw [hb] at hok
    obtain ⟨ht, hw, hs⟩ := Sink.onBody_sent hb
    have hbytes : t.written ≤ (bytesOf (acts ++ writeActs data s.writes)).length := by
      rw [hw, bytesOf_append, (hok rfl).1, List.length_append]
      omega
    rcases hs with hs | hs
    · rw [Sink.news_same hs, List.append_nil]
      exact ⟨ht.trans htotal, hbytes, by simp [hs, hsent, hsilent], htimely.append_silent hsilent,
        ms, hs.trans hms, hsorted, fun m hm => (hbound m hm).trans (by simp [hw])⟩
    · rw [Sink.news_one hs, ← List.append_assoc]
      refine ⟨ht.trans htotal, ?_, ?_, ?_, ms ++ [t.written], ?_, ?_, ?_⟩
      · rwa [bytesOf_append, bytesOf_singleton, List.append_nil]
      · rw [sentOf_append, sentOf_append, hsilent, List.append_nil, ← hsent]
        exact hs
      · exact (htimely.append_silent hsilent).count (by rw [← hw]; exact_mod_cast hbytes)
      · rw [messagesOf_snoc, ← htotal, hw, ← hms]
        exact hs
      · exact pairwise_snoc hsorted (fun m hm => (hbound m hm).trans (by omega))
      · intro m hm
        rcases List.mem_append.mp hm with hm | hm
        · exact (hbound m hm).trans (by rw [hw]; omega)
        · rw [List.mem_singleton.mp hm]

theorem Follows.feed {info : ResponseInfo} {s : Sink × List Act} (h : Follows info s) (world : World) (resumeFrom : ℤ)
    (pieces : List Bytes) : Follows info (feed (Sink.logged world resumeFrom true).onBody s pieces).state :=
  feed_invariant Follows.onBody h pieces

theorem Follows.start {info : ResponseInfo} {world : World} {resumeFrom : ℤ} {bytes : Bytes} {t : Sink}
    (h : (world.sink bytes).onHeaders world resumeFrom true info = (true, t)) :
    Follows info (t, (world.sink bytes).news t) := by
  obtain ⟨htotal, hwritten, hsent⟩ := Sink.onHeaders_sent h
  have hstart : t.sent = messagesOf info [] := hsent
  rw [Sink.news_one hsent]
  refine ⟨htotal, ?_, hsent, ?_, [], hstart, List.Pairwise.nil, by simp⟩
  · rw [hwritten]
    exact Nat.zero_le _
  · intro front received total rest hone
    cases front with
    | nil => cases hone
    | cons act front => simp at hone

theorem performOnce_silent {σ : Type} {url : Url} {request : Http.Request} {calls : Callbacks σ} {polls : Bool}
    {opened : Opened} {s t : σ} {attempt : Attempt}
    (h : performOnce url request calls polls opened s = (some attempt, t)) (hto : attempt.redirectTo ≠ []) : t = s := by
  obtain ⟨pieces, -, -, hp⟩ := performOnce_deliver url request polls opened
  rw [hp calls s] at h
  rcases Reply.deliver_redirectTo (by rw [h]) (Opened.reply_final url request polls opened) with hnil | ⟨hnone, -⟩
  · exact absurd hnil hto
  · rw [Reply.deliver, hnone] at h
    exact (congrArg Prod.snd h).symm

theorem Follows.conclude {info : ResponseInfo} {s : Sink} {acts : List Act} (h : Follows info (s, acts))
    (result : Option Result) {last : List Act}
    (hlast : last = ((Sink.conclude true (result, s)).sent.drop s.sent.length).map .sent) :
    (Sink.conclude true (result, s)).sent = sentOf (acts ++ last) ∧
      (∃ ms, (Sink.conclude true (result, s)).sent = messagesOf info ms ∧ ms.Pairwise (· ≤ ·)) ∧
      Timely (acts ++ last) ∧
      ∀ n, (Sink.conclude true (result, s)).status = some (.ok n) →
        ∃ total, (Sink.conclude true (result, s)).sent.getLast? = some (.bytesReceived n total) := by
  obtain ⟨htotal, hwritten, hsent, htimely, ms, hms, hsorted, hbound⟩ := h
  dsimp only at htotal hwritten hsent htimely hms hbound
  rcases @Sink.conclude_sent true result s with ⟨hkept, hfail⟩ | ⟨hmore, hok⟩
  · rw [hkept, List.drop_length, List.map_nil] at hlast
    rw [hlast, List.append_nil, hkept]
    exact ⟨hsent, ⟨ms, hms, hsorted⟩, htimely, fun n hn => absurd hn (hfail n)⟩
  · have hone : (Sink.conclude true (result, s)).sent = s.sent ++ [.bytesReceived s.written s.total] := hmore
    rw [hone, List.drop_left, List.map_singleton] at hlast
    rw [hlast, hone]
    refine ⟨?_, ⟨ms ++ [s.written], ?_, pairwise_snoc hsorted hbound⟩, ?_, fun n hn => ⟨s.total, ?_⟩⟩
    · rw [sentOf_append, hsent]
      rfl
    · rw [messagesOf_snoc, ← hms, htotal]
    · exact htimely.count (by exact_mod_cast hwritten)
    · rw [hok] at hn
      cases hn
      simp

theorem fetchToFd_protocol (url : Bytes) (resumeFrom : ℕ) (world : World) (bytes : Bytes) :
    (fetchToFd url resumeFrom true world bytes).sent = sentOf (fetchActs url resumeFrom true world bytes) ∧
      ((fetchToFd url resumeFrom true world bytes).sent = [] ∨
        ∃ info ms, world.response url resumeFrom = some info ∧
          (fetchToFd url resumeFrom true world bytes).sent = messagesOf info ms ∧ ms.Pairwise (· ≤ ·)) ∧
      Timely (fetchActs url resumeFrom true world bytes) ∧
      (∀ hopUrl request opened s attempt t,
        performOnce hopUrl request (Sink.logged world resumeFrom true) true opened s = (some attempt, t) →
          attempt.redirectTo ≠ [] → t = s) ∧
      ∀ n, (fetchToFd url resumeFrom true world bytes).status = some (.ok n) →
        ∃ total, (fetchToFd url resumeFrom true world bytes).sent.getLast? = some (.bytesReceived n total) := by
  have hsilent := fun hopUrl request opened s attempt t h hto =>
    @performOnce_silent _ hopUrl request (Sink.logged world resumeFrom true) true opened s t attempt h hto
  cases fetchToFd_course url resumeFrom true world bytes with
  | barren refused kept silent idle fails =>
    rw [idle, silent]
    exact ⟨rfl, .inl rfl, timely_nil, hsilent, fun n hn => absurd hn (fails n)⟩
  | fruitful info t fed result hd ha hc hfed hflat hdone hcut hfetch hacts =>
    have hfollows := (Follows.start hc).feed world resumeFrom (world.handed url resumeFrom)
    rw [hfed] at hfollows
    rw [hfetch] at hacts
    obtain ⟨hsent, ⟨ms, hms, hsorted⟩, htimely, hlast⟩ := hfollows.conclude result rfl
    rw [hacts, hfetch, world.response_announced url resumeFrom hd]
    exact ⟨hsent, .inr ⟨info, ms, ha, hms, hsorted⟩, htimely, hsilent, hlast⟩

end BinderDownload.HttpService
