import BinderDownload.Service.Messages

namespace BinderDownload.HttpService

open Text Http Files

/-- The response of the server that reaches the headers callback. -/
def World.response (world : World) (url : Bytes) (resumeFrom : ℕ) : Option ResponseInfo :=
  if world.descriptor = false then none else (world.reply url resumeFrom).announced

def World.Refuses (world : World) (resumeFrom : ℤ) (info : ResponseInfo) : Prop :=
  info.startOffset < 0 ∨ world.seekError ≠ none ∨
    info.startOffset = 0 ∧ 0 < resumeFrom ∧ world.truncateError ≠ none

theorem World.response_announced (world : World) (url : Bytes) (resumeFrom : ℕ) (hd : world.descriptor = true) :
    world.response url resumeFrom = (world.reply url resumeFrom).announced := if_neg (by simp [hd])

theorem World.response_get (world : World) (url : Bytes) (resumeFrom : ℕ) (hd : world.descriptor = true) :
    (get { url, resumeFrom } ⟨some (fun seen info => (true, seen ++ [info])), fun seen _ => (true, seen)⟩ true
      world.net []).2 = (world.response url resumeFrom).toList := by
  obtain ⟨pieces, -, -, hget⟩ := get_deliver { url, resumeFrom } true world.net
  rw [world.response_announced url resumeFrom hd, hget]
  dsimp only
  change ((world.reply url resumeFrom).deliver pieces _ []).2 = _
  cases ha : (world.reply url resumeFrom).announced with
  | none =>
    rw [Reply.deliver, ha]
    rfl
  | some info =>
    rw [Reply.deliver_accepted pieces ha rfl]
    exact @feed_invariant _ _ (fun seen _ => (true, seen)) (fun seen => seen = [info]) (fun _ _ hs => hs) _ rfl pieces

theorem Sink.onHeaders_refuses (world : World) (resumeFrom : ℤ) (callback : Bool) (s : Sink) (info : ResponseInfo) :
    (s.onHeaders world resumeFrom callback info).1 = false ↔ world.Refuses resumeFrom info := by
  unfold onHeaders World.Refuses
  dsimp only
  by_cases hneg : info.startOffset < 0
  · simp [hneg]
  · cases hseek : world.seekError with
    | some e => simp [hneg]
    | none =>
      by_cases hz : info.startOffset = 0 ∧ 0 < resumeFrom
      · cases ht : world.truncateError with
        | some e => simp [hz]
        | none => simp [hz]
      · simp [hneg, hz]
        tauto

def landed (bytes : Bytes) (resumeFrom startOffset : ℤ) (data : Bytes) : Bytes :=
  if startOffset = 0 ∧ 0 < resumeFrom then data else overlay 0 bytes startOffset.toNat data

theorem landed_landing (bytes : Bytes) (resumeFrom startOffset : ℤ) (data : Bytes) :
    overlay 0 (landing bytes resumeFrom startOffset) startOffset.toNat data =
      landed bytes resumeFrom startOffset data := by
  unfold landing landed
  split_ifs with h
  · rw [h.1]
    cases data with
    | nil => rfl
    | cons b data => simp [overlay]
  · rfl

theorem fetchToFd_lands (url : Bytes) (resumeFrom : ℕ) (callback : Bool) (world : World) (bytes : Bytes) :
    ((world.response url resumeFrom = none ∨
        ∃ info, world.response url resumeFrom = some info ∧ world.Refuses resumeFrom info) →
      (fetchToFd url resumeFrom callback world bytes).bytes = bytes) ∧
      ∀ info, world.response url resumeFrom = some info → ¬world.Refuses resumeFrom info →
        (fetchToFd url resumeFrom callback world bytes).bytes =
            landed bytes resumeFrom info.startOffset (bytesOf (fetchActs url resumeFrom callback world bytes)) ∧
          bytesOf (fetchActs url resumeFrom callback world bytes) <+: (world.reply url resumeFrom).body := by
  cases fetchToFd_course url resumeFrom callback world bytes with
  | barren refused kept silent idle fails =>
    refine ⟨fun _ => kept, fun info hsome hnot => ?_⟩
    by_cases hd : world.descriptor = true
    · rw [world.response_announced url resumeFrom hd] at hsome
      exact absurd ((Sink.onHeaders_refuses _ _ _ _ _).mp (refused info hd hsome)) hnot
    · rw [World.response, if_pos (by simpa using hd)] at hsome
      cases hsome
  | fruitful info t fed result hd ha hc hfed hflat hdone hcut hfetch hacts =>
    have hrefuses := Sink.onHeaders_refuses world resumeFrom callback (world.sink bytes) info
    rw [hc] at hrefuses
    obtain ⟨taken, hbytes, hpre, hfile, -⟩ :=
      Sink.feed_acts world resumeFrom callback t ((world.sink bytes).news t) (world.handed url resumeFrom)
    rw [hfed] at hbytes hfile
    have htaken : bytesOf (fetchActs url resumeFrom callback world bytes) = taken := by
      rw [hacts, bytesOf_append, hbytes, bytesOf_news, bytesOf_sent, List.nil_append, List.append_nil]
    have hheaders := Sink.onHeaders_spec world resumeFrom callback (world.sink bytes) info
    rw [hc] at hheaders
    rw [world.response_announced url resumeFrom hd, ha, htaken]
    refine ⟨?_, ?_⟩
    · rintro (hnone | ⟨info', hsome, hrefused⟩)
      · cases hnone
      · cases hsome
        exact absurd (hrefuses.mpr hrefused) (by simp)
    · intro info' hsome _
      cases hsome
      refine ⟨?_, hflat ▸ hpre⟩
      rw [hfetch, Sink.conclude_bytes, hfile, hheaders.2.2.2, ← landed_landing]
      rfl

theorem fetchToFd_writes {url : Bytes} {resumeFrom : ℕ} {callback : Bool} {world : World} {bytes : Bytes} {n : ℕ}
    (h : (fetchToFd url resumeFrom callback world bytes).status = some (.ok n)) :
    bytesOf (fetchActs url resumeFrom callback world bytes) = (world.reply url resumeFrom).body ∧
      n = (bytesOf (fetchActs url resumeFrom callback world bytes)).length := by
  have hwhole := fetchToFd_spec url resumeFrom callback world bytes
  cases fetchToFd_course url resumeFrom callback world bytes with
  | barren refused kept silent idle fails => exact absurd h (fails n)
  | fruitful info t fed result hd ha hc hfed hflat hdone hcut hfetch hacts =>
    obtain ⟨taken, hbytes, -, -, hall⟩ :=
      Sink.feed_acts world resumeFrom callback t ((world.sink bytes).news t) (world.handed url resumeFrom)
    rw [hfed] at hbytes hall
    have htaken : bytesOf (fetchActs url resumeFrom callback world bytes) = taken := by
      rw [hacts, bytesOf_append, hbytes, bytesOf_news, bytesOf_sent, List.nil_append, List.append_nil]
    have hn := h
    rw [hfetch] at hn
    obtain ⟨-, r, hr, hok⟩ := Sink.conclude_ok hn
    have hfull : fed.done = true := by
      by_contra hnot
      exact hcut (by simpa using hnot) r hr hok
    rcases hwhole with ⟨-, hfail⟩ | ⟨_, _, -, -, -, -, hsuccess⟩
    · exact absurd h (hfail n)
    · rw [htaken, (hall hfull).1, hflat]
      exact ⟨rfl, (hsuccess n h).2.1⟩

theorem fetchToFd_succeeds {url : Bytes} {resumeFrom : ℕ} (callback : Bool) {world : World} (bytes : Bytes)
    {info : ResponseInfo} {attempt : Attempt} (hresponse : world.response url resumeFrom = some info)
    (hnot : ¬world.Refuses resumeFrom info) (hwrites : Steady world.writes)
    (hattempt : (world.reply url resumeFrom).attempt = some attempt) (hok : attempt.result.error = .ok) :
    (fetchToFd url resumeFrom callback world bytes).status = some (.ok (world.reply url resumeFrom).body.length) := by
  by_cases hd : world.descriptor = true
  · rw [world.response_announced url resumeFrom hd] at hresponse
    have hrefuses := Sink.onHeaders_refuses world resumeFrom callback (world.sink bytes) info
    rcases hc : (world.sink bytes).onHeaders world resumeFrom callback info with ⟨_ | _, t⟩
    · rw [hc] at hrefuses
      exact absurd (hrefuses.mp rfl) hnot
    · exact (fetchToFd_accepted hd hresponse hc hwrites).2 attempt hattempt hok
  · rw [World.response, if_pos (by simpa using hd)] at hresponse
    cases hresponse

theorem fetchToFd_effect (url : Bytes) (resumeFrom : ℕ) (callback : Bool) (world : World) (bytes : Bytes) :
    (((world.response url resumeFrom = none ∨
        ∃ info, world.response url resumeFrom = some info ∧ world.Refuses resumeFrom info) →
      (fetchToFd url resumeFrom callback world bytes).bytes = bytes) ∧
      ∀ info, world.response url resumeFrom = some info → ¬world.Refuses resumeFrom info →
        (fetchToFd url resumeFrom callback world bytes).bytes =
            landed bytes resumeFrom info.startOffset (bytesOf (fetchActs url resumeFrom callback world bytes)) ∧
          bytesOf (fetchActs url resumeFrom callback world bytes) <+: (world.reply url resumeFrom).body) ∧
      (∀ n, (fetchToFd url resumeFrom callback world bytes).status = some (.ok n) →
        bytesOf (fetchActs url resumeFrom callback world bytes) = (world.reply url resumeFrom).body ∧
          n = (bytesOf (fetchActs url resumeFrom callback world bytes)).length) ∧
      ∀ info attempt, world.response url resumeFrom = some info → ¬world.Refuses resumeFrom info →
        Steady world.writes → (world.reply url resumeFrom).attempt = some attempt → attempt.result.error = .ok →
        (fetchToFd url resumeFrom callback world bytes).status =
          some (.ok (world.reply url resumeFrom).body.length) :=
  ⟨fetchToFd_lands url resumeFrom callback world bytes, fun _ => fetchToFd_writes,
    fun _ _ hresponse hnot hwrites hattempt hok =>
      fetchToFd_succeeds callback bytes hresponse hnot hwrites hattempt hok⟩

end BinderDownload.HttpService
