import BinderDownload.Service.Resume

namespace BinderDownload.DownloadService

open Text Http Files HttpService

theorem landing_length (old body : Bytes) (start : ℤ) :
    (overlay 0 (landing old old.length start) start.toNat body).length =
      if start = 0 then body.length else if body = [] then old.length
      else max old.length (start.toNat + body.length) := by
  by_cases hz : start = 0
  · have hempty : landing old old.length start = [] := by
      unfold landing
      split_ifs with h
      · rfl
      · apply List.eq_nil_of_length_eq_zero
        omega
    rw [if_pos hz, hempty, hz]
    by_cases hb : body = []
    · rw [hb]
      rfl
    · rw [overlay_length 0 [] _ hb]
      simp
  · have hkeep : landing old old.length start = old := if_neg (fun h => hz h.1)
    rw [if_neg hz, hkeep]
    by_cases hb : body = []
    · rw [if_pos hb, hb, overlay_nil]
    · rw [if_neg hb, overlay_length 0 old _ hb]

/-- The response fills the file: it starts at 0 or leaves nothing of the old file behind its body, and its
body ends where the resource ends. -/
def Fills (info : ResponseInfo) (body old : Bytes) : Prop :=
  (info.startOffset = 0 ∨ body ≠ [] ∧ (old.length : ℤ) ≤ info.startOffset + body.length ∨
      body = [] ∧ (old.length : ℤ) = info.startOffset) ∧
    (info.totalBytes < 0 ∨ info.totalBytes = info.startOffset + body.length)

theorem completed_file {job : Job} {env : Env} {fs : Fs} {info : ResponseInfo}
    (hdone : (runTask job env fs).state = .completed)
    (hinfo : (env.world.reply job.url (leftover job fs).length).announced = some info) :
    0 ≤ info.startOffset ∧
      (fetchOf job env fs).status = some (.ok (env.world.reply job.url (leftover job fs).length).body.length) ∧
      (runTask job env fs).fs.content job.destPath =
        some (overlay 0 (landing (leftover job fs) (leftover job fs).length info.startOffset) info.startOffset.toNat
          (env.world.reply job.url (leftover job fs).length).body) ∧
      ∃ attempt, (env.world.reply job.url (leftover job fs).length).attempt = some attempt ∧
        attempt.result.error = .ok := by
  cases runTask_ends job env fs with
  | untouched state part => exact absurd hdone state
  | transferred h =>
    cases h with
    | stopped state part => exact absurd hdone state
    | completed state written status dest part =>
      rcases fetchToFd_spec job.url (leftover job fs).length true env.world (leftover job fs) with
        ⟨-, hfail⟩ | ⟨info', taken, ha, hle, -, hfile, hok⟩
      · exact absurd status (hfail written)
      · obtain rfl : info' = info := by
          rw [hinfo] at ha
          exact (Option.some.inj ha).symm
        obtain ⟨rfl, rfl, hattempt⟩ := hok written status
        exact ⟨hle, status, dest.trans (congrArg some hfile), hattempt⟩

theorem completed_size (job : Job) (env : Env) (fs : Fs) (info : ResponseInfo) (written : ℕ)
    (hdone : (runTask job env fs).state = .completed)
    (hinfo : (env.world.reply job.url (leftover job fs).length).announced = some info)
    (hwritten : (fetchOf job env fs).status = some (.ok written)) :
    (∃ bytes, (runTask job env fs).fs.content job.destPath = some bytes ∧
        (bytes.length : ℤ) = info.startOffset + written ∧
        (0 ≤ info.totalBytes → (bytes.length : ℤ) = info.totalBytes)) ↔
      Fills info (env.world.reply job.url (leftover job fs).length).body (leftover job fs) := by
  obtain ⟨hle, hstatus, hdest, -⟩ := completed_file hdone hinfo
  obtain rfl : (env.world.reply job.url (leftover job fs).length).body.length = written := by
    rw [hwritten] at hstatus
    simpa using hstatus.symm
  generalize (env.world.reply job.url (leftover job fs).length).body = body at *
  have hlength := landing_length (leftover job fs) body info.startOffset
  unfold Fills
  rw [hdest]
  constructor
  · rintro ⟨bytes, hbytes, hsum, htotal⟩
    obtain rfl := Option.some.inj hbytes
    rw [hlength] at hsum htotal
    split_ifs at hsum htotal with hz hb
    · exact ⟨.inl hz, by omega⟩
    · refine ⟨.inr (.inr ⟨hb, ?_⟩), ?_⟩
      · simpa [hb] using hsum
      · omega
    · refine ⟨.inr (.inl ⟨hb, ?_⟩), ?_⟩
      · omega
      · omega
  · rintro ⟨hfile, htotal⟩
    refine ⟨_, rfl, ?_⟩
    rw [hlength]
    split_ifs with hz hb
    · constructor
      · omega
      · omega
    · have hlast : ((leftover job fs).length : ℤ) = info.startOffset := by tauto
      rw [hb] at htotal ⊢
      rw [List.length_nil] at htotal ⊢
      constructor
      · omega
      · omega
    · have hlast : ((leftover job fs).length : ℤ) ≤ info.startOffset + body.length := by tauto
      constructor
      · omega
      · omega

theorem completed_size_resumed :
    let job : Job := ⟨1, ascii "http://h/f", ascii "f", true, by decide, by decide, by decide⟩
    let response := Response.sized 206
      [.of (ascii "Content-Range") (ascii "bytes 1-1/2") rest_range] (ascii "i") rest_sized
    let env := Env.delivering ⟨response.render, rest_ne, rest_le⟩
    let fs := Fs.lone (ascii "f.part") (ascii "h")
    ∃ bytes, (runTask job env fs).fs.content (ascii "f") = some bytes ∧ (bytes.length : ℤ) = 1 + 1 := by
  intro job response env fs
  have hanswers : env.world.net.Answers { url := job.url, resumeFrom := (leftover job fs).length }
      ⟨ascii "http", ascii "h", ascii "80", ascii "/f"⟩ _ response :=
    Env.delivering_resumes _ (by decide +kernel) rfl rfl
  have hreply : env.world.reply job.url (leftover job fs).length = _ := hanswers.reply true (by decide) (by decide)
  have hdone := (answered_completes
    ((Env.delivering_quiet _).unhindered fs (by decide) (by decide) (by decide +kernel) (by decide +kernel))
    hanswers (by decide) (by decide) (show _ = ((1 : ℕ) : ℤ) by decide +kernel)).1
  have hwritten := (completed_file hdone (by rw [hreply]; rfl)).2.1
  obtain ⟨bytes, hbytes, hlength, -⟩ := (completed_size job env fs _ _ hdone (by rw [hreply]; rfl) hwritten).mpr (by
    rw [hreply]
    refine ⟨.inr (.inl ⟨by decide, by decide +kernel⟩), .inr (by decide +kernel)⟩)
  rw [hreply] at hlength
  exact ⟨bytes, hbytes, hlength.trans (by decide +kernel)⟩

theorem completed_short_of_total :
    let job : Job := ⟨1, ascii "http://h/f", ascii "f", true, by decide, by decide, by decide⟩
    let response := Response.sized 206
      [.of (ascii "Content-Range") (ascii "bytes 1-1/5") (by decide +kernel)] (ascii "i") (by decide +kernel)
    let env := Env.delivering ⟨response.render, by decide +kernel, by decide +kernel⟩
    let fs := Fs.lone (ascii "f.part") (ascii "h")
    ∃ info, (env.world.reply job.url (leftover job fs).length).announced = some info ∧ info.startOffset = 1 ∧
      info.totalBytes = 5 ∧ (fetchOf job env fs).status = some (.ok 1) ∧ (runTask job env fs).state = .completed ∧
      (runTask job env fs).fs.content (ascii "f") = some (ascii "hi") := by
  intro job response env fs
  have hanswers : env.world.net.Answers { url := job.url, resumeFrom := (leftover job fs).length }
      ⟨ascii "http", ascii "h", ascii "80", ascii "/f"⟩ _ response :=
    Env.delivering_resumes _ (by decide +kernel) rfl rfl
  have hreply : env.world.reply job.url (leftover job fs).length = _ := hanswers.reply true (by decide) (by decide)
  obtain ⟨hdone, hdest⟩ := answered_completes
    ((Env.delivering_quiet _).unhindered fs (by decide) (by decide) (by decide +kernel) (by decide +kernel))
    hanswers (by decide) (by decide) (show _ = ((1 : ℕ) : ℤ) by decide +kernel)
  have hwritten := (completed_file hdone (by rw [hreply]; rfl)).2.1
  rw [hreply] at hwritten
  refine ⟨_, by rw [hreply]; rfl, by decide +kernel, by decide +kernel, hwritten, hdone, ?_⟩
  rw [show ascii "f" = job.destPath from rfl, hdest]
  decide +kernel

end BinderDownload.DownloadService
