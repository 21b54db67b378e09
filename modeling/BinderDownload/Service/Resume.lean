import BinderDownload.Http.Peer
import BinderDownload.Service.Attempt

namespace BinderDownload.DownloadService

open Text Http Files HttpService

theorem landing_within {bytes whole : Bytes} {start : ℕ} (hbytes : bytes <+: whole) (hstart : start ≤ bytes.length) :
    landing bytes bytes.length start <+: whole ∧ start ≤ (landing bytes bytes.length start).length := by
  unfold landing
  split_ifs with hz
  · exact ⟨List.nil_prefix, by simpa using hz.1⟩
  · exact ⟨hbytes, hstart⟩

theorem fetchToFd_serves (url : Bytes) (callback : Bool) (world : World) (bytes : Bytes) (resource : Resource)
    (hbytes : bytes <+: resource.bytes) (hpeer : world.net.Serves resource bytes.length) :
    (fetchToFd url bytes.length callback world bytes).bytes <+: resource.bytes ∧
      ∀ n, (fetchToFd url bytes.length callback world bytes).status = some (.ok n) →
        (fetchToFd url bytes.length callback world bytes).bytes = resource.bytes := by
  have hreply : (world.reply url bytes.length).Serves resource bytes.length :=
    hpeer.reply { url, resumeFrom := bytes.length } true
  rcases fetchToFd_spec url bytes.length callback world bytes with ⟨hsame, hfail⟩ |
    ⟨info, taken, ha, -, htaken, hfile, hok⟩
  · rw [hsame]
    exact ⟨hbytes, fun n h => absurd h (hfail n)⟩
  · rcases hreply with ⟨hnone, -⟩ | ⟨info', start, hstart, hoffset, ha', hbody, hall⟩
    · simp [ha] at hnone
    · obtain rfl : info' = info := by simpa [ha] using ha'.symm
      rw [hfile, hoffset, Int.toNat_natCast]
      obtain ⟨hland, hle⟩ := landing_within hbytes hstart
      refine ⟨overlay_within 0 _ start hland hle (htaken.trans hbody), fun n h => ?_⟩
      obtain ⟨rfl, -, attempt, hattempt, hsuccess⟩ := hok n h
      rw [hall attempt hattempt hsuccess]
      exact overlay_complete 0 _ start hland hle

section Answered

variable {job : Job} {env : Env} {fs : Fs} {url : Url} {conn : Conn} {body : Bytes} {response : Response body}

theorem fetchToFd_answered {text : Bytes} {held : ℕ} (callback : Bool) {world : World} (bytes : Bytes)
    (hd : world.descriptor = true) (hseek : world.seekError = none) (htruncate : world.truncateError = none)
    (hwrites : Steady world.writes) (hanswers : world.net.Answers { url := text, resumeFrom := held } url conn response)
    (hcode : response.code < 400) (hredirect : isRedirect response.code = false)
    (hstart : 0 ≤ (response.info url { url := text, resumeFrom := held }).startOffset) :
    world.reply text held = response.reply url { url := text, resumeFrom := held } ∧
      (fetchToFd text held callback world bytes).bytes =
        overlay 0 (landing bytes held (response.info url { url := text, resumeFrom := held }).startOffset)
          (response.info url { url := text, resumeFrom := held }).startOffset.toNat body ∧
      (fetchToFd text held callback world bytes).status = some (.ok body.length) := by
  have hreply : world.reply text held = response.reply url { url := text, resumeFrom := held } :=
    hanswers.reply true hcode hredirect
  obtain ⟨hfile, hsuccess⟩ := fetchToFd_steady text held callback world bytes hd hseek htruncate hwrites
    (by rw [hreply]; rfl) hstart
  have hstatus := hsuccess _ (by rw [hreply]; rfl) rfl
  rw [hreply] at hfile hstatus
  exact ⟨hreply, hfile, hstatus⟩

theorem answered_completes (hrun : Unhindered job env fs)
    (hanswers : env.world.net.Answers { url := job.url, resumeFrom := (leftover job fs).length } url conn response)
    (hcode : response.code < 400) (hredirect : isRedirect response.code = false) {start : ℕ}
    (hstart : (response.info url { url := job.url, resumeFrom := (leftover job fs).length }).startOffset = start) :
    (runTask job env fs).state = .completed ∧
      (runTask job env fs).fs.content job.destPath =
        some (overlay 0 (landing (leftover job fs) (leftover job fs).length start) start body) := by
  obtain ⟨-, hfile, hstatus⟩ := fetchToFd_answered true (leftover job fs) hrun.descriptor hrun.seekError
    hrun.truncateError hrun.writes hanswers hcode hredirect (by rw [hstart]; exact Int.natCast_nonneg _)
  rw [hstart, Int.toNat_natCast] at hfile
  obtain ⟨htransfer, hcompletes⟩ := runTask_unhindered hrun
  have hdone := hcompletes _ hstatus
  refine ⟨hdone, ?_⟩
  cases htransfer with
  | stopped state part => exact absurd hdone state
  | completed state written status dest part => exact dest.trans (congrArg some hfile)

theorem silent_stops (hnone : (env.world.reply job.url (leftover job fs).length).announced = none) :
    (runTask job env fs).state ≠ .completed := by
  cases runTask_ends job env fs with
  | untouched state part => exact state
  | transferred h =>
    cases h with
    | stopped state part => exact state
    | completed state written status dest part =>
      rcases fetchToFd_spec job.url (leftover job fs).length true env.world (leftover job fs) with
        ⟨-, hfail⟩ | ⟨info, taken, ha, -⟩
      · exact absurd status (hfail written)
      · simp [hnone] at ha

def Env.answering (ticks : List Tick) : Env :=
  { world := { net := ⟨fun _ => .connected ⟨[.wrote 4096], ticks⟩, fun _ => false⟩ } }

def Env.delivering (segment : Segment) : Env := .answering [⟨false, .data segment⟩]

theorem Env.answering_quiet (ticks : List Tick) : (Env.answering ticks).Quiet :=
  ⟨rfl, rfl, rfl, rfl, rfl, rfl, rfl, rfl, rfl, rfl, fun _ => List.not_mem_nil⟩

theorem Env.delivering_quiet (segment : Segment) : (Env.delivering segment).Quiet := answering_quiet _

theorem Env.delivering_answers {request : Http.Request} (segment : Segment) (hparsed : parseUrl request.url = some url)
    (hsent : sendAll (requestHead url request).length [.wrote 4096] = .ok ())
    (hframing : response.framing.delimited = true) (hsegment : segment.bytes = response.render) :
    (Env.delivering segment).world.net.Answers request url ⟨[.wrote 4096], [⟨false, .data segment⟩]⟩ response := by
  refine ⟨hparsed, rfl, rfl, hsent, .inl ⟨hframing, [], ?_⟩⟩
  have h : Delivers request.idleTimeoutMs (segment.bytes ++ []) _ := .data segment (.done [])
  rwa [hsegment] at h

theorem Env.delivering_resumes {held : ℕ} (segment : Segment) (hheld : held = 1)
    (hframing : response.framing.delimited = true) (hsegment : segment.bytes = response.render) :
    (Env.delivering segment).world.net.Answers { url := ascii "http://h/f", resumeFrom := held }
      ⟨ascii "http", ascii "h", ascii "80", ascii "/f"⟩ ⟨[.wrote 4096], [⟨false, .data segment⟩]⟩ response := by
  subst hheld
  exact Env.delivering_answers segment (by decide +kernel) (by decide +kernel) hframing hsegment

end Answered

section Rest

theorem rest_range : ascii "Content-Range" ≠ [] ∧ (∀ c ∈ ascii "Content-Range", isToken c = true) ∧
    10 ∉ ascii "bytes 1-1/2" ∧ Trimmed (ascii "bytes 1-1/2") ∧
    (ascii "Content-Range" ++ 58 :: ([32] ++ ascii "bytes 1-1/2" ++ []) ++ Eol.crlf.cr).length ≤ kMaxLineLength := by
  decide +kernel

theorem rest_sized : 100 ≤ 206 ∧ 206 < 600 ∧ (decimal 206).length ≤ 3 ∧ (decimal (ascii "i").length).length ≤ 20 ∧
    (ascii "i").length < 2 ^ 63 ∧
    [Field.of (ascii "Content-Range") (ascii "bytes 1-1/2") rest_range].length < kMaxHeaderCount ∧
    ∀ field ∈ [Field.of (ascii "Content-Range") (ascii "bytes 1-1/2") rest_range],
      ¬field.Named (ascii "Content-Length") ∧ ¬field.Named (ascii "Transfer-Encoding") := by
  decide +kernel

def restResponse : Response (ascii "i") :=
  Response.sized 206 [.of (ascii "Content-Range") (ascii "bytes 1-1/2") rest_range] (ascii "i") rest_sized

theorem rest_ne : restResponse.render ≠ [] := by
  simp [Response.render, Line.render, Eol.bytes]

theorem rest_le : restResponse.render.length ≤ kReadBufferSize := by decide +kernel

end Rest

theorem attempt_serves (job : Job) (env : Env) (fs : Fs) (resource : Resource)
    (hpart : leftover job fs <+: resource.bytes) (hpeer : env.world.net.Serves resource (leftover job fs).length) :
    leftover job (runTask job env fs).fs <+: resource.bytes ∧
      ((runTask job env fs).state = .completed →
        (runTask job env fs).fs.content job.destPath = some resource.bytes) := by
  obtain ⟨hpre, hwhole⟩ := fetchToFd_serves job.url true env.world (leftover job fs) resource hpart hpeer
  cases runTask_ends job env fs with
  | untouched state part => exact ⟨part ▸ hpart, fun h => absurd h state⟩
  | transferred h =>
    cases h with
    | stopped state part => exact ⟨part ▸ hpre, fun h => absurd h state⟩
    | completed state written status dest part =>
      refine ⟨?_, fun _ => by rw [dest, fetchOf, hwhole written status]⟩
      rcases part with hnone | ⟨-, hpart'⟩
      · rw [leftover, hnone]
        exact List.nil_prefix
      · rw [leftover, hpart']
        exact hpre

/-- The file systems that attempts with one url and one destination lead to, while the peer serves the
resource to each of them. -/
inductive History (url destPath : Bytes) (resource : Resource) (fs₀ : Fs) : Fs → Prop
  | start : History url destPath resource fs₀ fs₀
  | attempt {fs : Fs} (h : History url destPath resource fs₀ fs) (job : Job) (env : Env) (hurl : job.url = url)
      (hdest : job.destPath = destPath) (peer : env.world.net.Serves resource (leftover job fs).length) :
      History url destPath resource fs₀ (runTask job env fs).fs

theorem leftover_within (job : Job) (fs : Fs) (whole : Bytes) :
    leftover job fs <+: whole ↔ ∀ bytes, fs.content job.partPath = some bytes → bytes <+: whole := by
  unfold leftover
  cases fs.content job.partPath with
  | none => simp
  | some bytes => simp

theorem directory_fails (job : Job) (env : Env) {fs fs1 : Fs}
    (hparent : (ensureParentDir job.destPath env.mkdirError fs).2 = fs1)
    (hdir : fs1.node (locate fs1.cwd job.partPath) = some .dir) :
    leftover job fs = [] ∧ (runTask job env fs).state = .failed := by
  have hsame := ensureParentDir_sameFiles job.destPath env.mkdirError fs
  rw [hparent] at hsame
  have hisDir : fs1.isDir (locate fs1.cwd job.partPath) = true := by simp [Fs.isDir, hdir]
  constructor
  · rw [← leftover_sameFiles job hsame, leftover, Fs.content, hdir]
    split_ifs <;> rfl
  · have hattempts := runTask_attempts job env fs
    generalize runTask job env fs = out at hattempts
    cases hattempts with
    | parentless error parent | unopened counters message parent opened known
    | failed counters code message parent opened cause known => rfl
    | canceled counters parent opened http requestId early known
    | transferred parent opened http requestId early dup =>
      rw [parent] at hparent
      subst hparent
      rw [Fs.openWrite_not_dir opened] at hisDir
      cases hisDir

theorem History.keeps {url destPath : Bytes} {resource : Resource} {fs₀ fs : Fs}
    (h : History url destPath resource fs₀ fs)
    (h₀ : ∀ bytes, fs₀.content (partOf destPath) = some bytes → bytes <+: resource.bytes) :
    ∀ bytes, fs.content (partOf destPath) = some bytes → bytes <+: resource.bytes := by
  induction h with
  | start => exact h₀
  | attempt h job env hurl hdest peer ih =>
    subst hdest
    have hpart := (leftover_within job _ resource.bytes).mpr ih
    exact (leftover_within job _ resource.bytes).mp (attempt_serves job env _ resource hpart peer).1

theorem runTask_resumes (url destPath : Bytes) (resource : Resource) (fs₀ fs : Fs)
    (h₀ : ∀ bytes, fs₀.content (partOf destPath) = some bytes → bytes <+: resource.bytes)
    (h : History url destPath resource fs₀ fs) :
    (∀ bytes, fs.content (partOf destPath) = some bytes → bytes <+: resource.bytes) ∧
      ∀ (job : Job) (env : Env), job.url = url → job.destPath = destPath →
        env.world.net.Serves resource (leftover job fs).length → (runTask job env fs).state = .completed →
        (runTask job env fs).fs.content destPath = some resource.bytes := by
  refine ⟨h.keeps h₀, fun job env _ hdest hpeer hdone => ?_⟩
  subst hdest
  have hpart := (leftover_within job fs resource.bytes).mpr (h.keeps h₀)
  exact (attempt_serves job env fs resource hpart hpeer).2 hdone

theorem runTask_resumes_twice :
    let job : Job := ⟨1, ascii "http://h/f", ascii "f", true, by decide, by decide, by decide⟩
    let away : Env := { world := { net := ⟨fun _ => .refused .connect [] (by decide), fun _ => false⟩ } }
    let response := Response.sized 206
      [.of (ascii "Content-Range") (ascii "bytes 1-1/2") rest_range] (ascii "i") rest_sized
    let env := Env.delivering ⟨response.render, rest_ne, rest_le⟩
    let fs := Fs.lone (ascii "f.part") (ascii "h")
    (∀ bytes, (runTask job away fs).fs.content (ascii "f.part") = some bytes → bytes <+: ascii "hi") ∧
      (runTask job env fs).state = .completed ∧ (runTask job env fs).fs.content (ascii "f") = some (ascii "hi") := by
  intro job away response env fs
  have h₀ : ∀ bytes, fs.content (partOf (ascii "f")) = some bytes → bytes <+: ascii "hi" := by
    intro bytes h
    rw [show fs.content (partOf (ascii "f")) = some (ascii "h") by decide +kernel] at h
    cases h
    exact ⟨ascii "i", rfl⟩
  have hanswers : env.world.net.Answers { url := job.url, resumeFrom := (leftover job fs).length }
      ⟨ascii "http", ascii "h", ascii "80", ascii "/f"⟩ _ response :=
    Env.delivering_resumes _ (by decide +kernel) rfl rfl
  have hdone := (answered_completes
    ((Env.delivering_quiet _).unhindered fs (by decide) (by decide) (by decide +kernel) (by decide +kernel))
    hanswers (by decide) (by decide) (show _ = ((1 : ℕ) : ℤ) by decide +kernel)).1
  obtain ⟨hfirst, -⟩ := runTask_resumes job.url job.destPath ⟨ascii "hi", by decide⟩ fs _ h₀
    (.attempt .start job away rfl rfl (fun _ => .refused _ _ _))
  obtain ⟨-, hsecond⟩ := runTask_resumes job.url job.destPath ⟨ascii "hi", by decide⟩ fs fs h₀ .start
  refine ⟨hfirst, hdone, hsecond job env rfl rfl (fun _ => .answered response [] _ ?_ ?_) hdone⟩
  · exact .inr (.inr ⟨rfl, .inr ⟨rfl, 1, by decide +kernel, by decide, by decide, by decide +kernel⟩⟩)
  · simp [Tick.bytes]

end BinderDownload.DownloadService
