import BinderDownload.Service.Litter
import BinderDownload.Service.Messages
import BinderDownload.Service.Size

namespace BinderDownload.DownloadService

open Text Http Files HttpService

/-- The urls behind the bytes of the `.part` file, before and after an attempt: the file is empty or as it was, or its
old bytes were dropped for a response that starts at 0, or the attempt has added to them. -/
inductive Signs (job : Job) (env : Env) (fs : Fs) (authors : List Bytes) : List Bytes → Prop
  | emptied (empty : leftover job (runTask job env fs).fs = []) : Signs job env fs authors []
  | unchanged (same : leftover job (runTask job env fs).fs = leftover job fs) : Signs job env fs authors authors
  | restarted (fetching : Fetching job env fs) (begun : (fetchOf job env fs).sent ≠ [])
      (start : ∀ info, (env.world.reply job.url (leftover job fs).length).announced = some info →
        info.startOffset = 0) :
      Signs job env fs authors [job.url]
  | added : Signs job env fs authors (job.url :: authors)

/-- Downloads to one destination from servers that each serve a fixed resource, with the urls of the attempts that have
changed the `.part` file since it was last absent, empty or truncated. -/
inductive Visits (destPath : Bytes) (resources : Bytes → Resource) : Fs → List Bytes → Prop
  | start (fs : Fs) (h : (fs.content (partOf destPath)).getD [] = []) : Visits destPath resources fs []
  | attempt {fs : Fs} {authors authors' : List Bytes} (h : Visits destPath resources fs authors) (job : Job) (env : Env)
      (hdest : job.destPath = destPath)
      (peer : env.world.net.Serves (resources job.url) (leftover job fs).length)
      (signs : Signs job env fs authors authors') : Visits destPath resources (runTask job env fs).fs authors'

theorem Fetching.transfers {job : Job} {env : Env} {fs : Fs} (h : Fetching job env fs) :
    Transfers job env fs (runTask job env fs) := by
  obtain ⟨⟨ino, fs2⟩, hopen⟩ := h.opened
  have hleft := leftover_sameFiles job (ensureParentDir_sameFiles job.destPath env.mkdirError fs)
  rw [runTask_transfer (Prod.ext h.parent rfl) hopen h.http h.requestId h.early h.dup]
  exact (transfer_ends env (openWrite_opened hopen)).congr hleft

theorem landing_zero (bytes : Bytes) : landing bytes bytes.length 0 = [] := by
  unfold landing
  split_ifs with h
  · rfl
  · apply List.eq_nil_of_length_eq_zero
    omega

theorem restarted_serves {job : Job} {env : Env} {fs : Fs} {resource : Resource}
    (hpeer : env.world.net.Serves resource (leftover job fs).length) (hfetching : Fetching job env fs)
    (hbegun : (fetchOf job env fs).sent ≠ [])
    (hstart : ∀ info, (env.world.reply job.url (leftover job fs).length).announced = some info → info.startOffset = 0) :
    leftover job (runTask job env fs).fs <+: resource.bytes := by
  have hbytes : (fetchOf job env fs).bytes <+: resource.bytes := by
    have hreply : (env.world.reply job.url (leftover job fs).length).Serves resource (leftover job fs).length :=
      hpeer.reply { url := job.url, resumeFrom := (leftover job fs).length } true
    obtain ⟨info, taken, ha, htaken, hfile⟩ := fetchToFd_begun hbegun
    rcases hreply with ⟨hnone, -⟩ | ⟨info', start, -, hoffset, ha', hbody, -⟩
    · rw [hnone] at ha
      cases ha
    · rw [ha] at ha'
      cases ha'
      have hzero := hstart info ha
      obtain rfl : start = 0 := by
        rw [hoffset] at hzero
        exact_mod_cast hzero
      rw [fetchOf, hfile, hzero, landing_zero]
      exact overlay_within 0 [] 0 List.nil_prefix le_rfl (htaken.trans hbody)
  cases hfetching.transfers with
  | stopped state part => exact part ▸ hbytes
  | completed state written status dest part =>
    rcases part with hnone | ⟨-, hpart⟩
    · rw [leftover, hnone]
      exact List.nil_prefix
    · rw [leftover, hpart]
      exact hbytes

theorem Visits.author {destPath : Bytes} {resources : Bytes → Resource} {fs : Fs} {authors : List Bytes}
    (h : Visits destPath resources fs authors) (url : Bytes) (hsame : ∀ author ∈ authors, author = url) :
    (fs.content (partOf destPath)).getD [] <+: (resources url).bytes := by
  induction h with
  | start fs h =>
    rw [h]
    exact List.nil_prefix
  | attempt h job env hdest peer signs ih =>
    subst hdest
    change leftover job _ <+: _
    cases signs with
    | emptied empty =>
      rw [empty]
      exact List.nil_prefix
    | unchanged same =>
      rw [same]
      exact ih hsame
    | restarted fetching begun start =>
      obtain rfl : job.url = url := hsame _ List.mem_cons_self
      exact restarted_serves peer fetching begun start
    | added =>
      obtain rfl : job.url = url := hsame _ List.mem_cons_self
      have hpart := ih (fun author ha => hsame author (List.mem_cons_of_mem _ ha))
      exact (attempt_serves job env _ _ hpart peer).1

theorem whole_replaces (job : Job) (env : Env) (fs : Fs) (resource : Resource)
    (hpeer : env.world.net.Serves resource (leftover job fs).length)
    (hwhole : ∀ info, (env.world.reply job.url (leftover job fs).length).announced = some info → info.startOffset = 0)
    (hdone : (runTask job env fs).state = .completed) :
    (runTask job env fs).fs.content job.destPath = some resource.bytes := by
  have hreply : (env.world.reply job.url (leftover job fs).length).Serves resource (leftover job fs).length :=
    hpeer.reply { url := job.url, resumeFrom := (leftover job fs).length } true
  rcases hreply with ⟨hnone, -⟩ | ⟨info, start, -, hoffset, ha, -, hall⟩
  · exact absurd hdone (silent_stops hnone)
  · obtain ⟨-, -, hdest, attempt, hattempt, hok⟩ := completed_file hdone ha
    have hzero := hwhole info ha
    obtain rfl : start = 0 := by
      rw [hoffset] at hzero
      exact_mod_cast hzero
    rw [hdest, hall attempt hattempt hok, hzero, landing_zero]
    exact congrArg some (overlay_complete 0 [] 0 List.nil_prefix le_rfl)

theorem interrupted_leftover (job : Job) (env : Env) (fs : Fs) {info : ResponseInfo} (hrun : Unhindered job env fs)
    (ha : (env.world.reply job.url (leftover job fs).length).announced = some info) (hstart : 0 ≤ info.startOffset)
    (hfail : ∀ attempt, (env.world.reply job.url (leftover job fs).length).attempt = some attempt →
      attempt.result.error ≠ .ok) :
    leftover job (runTask job env fs).fs =
      overlay 0 (landing (leftover job fs) (leftover job fs).length info.startOffset) info.startOffset.toNat
        (env.world.reply job.url (leftover job fs).length).body := by
  obtain ⟨hfile, -⟩ := fetchToFd_steady job.url (leftover job fs).length true env.world (leftover job fs)
    hrun.descriptor hrun.seekError hrun.truncateError hrun.writes ha hstart
  cases (runTask_unhindered hrun).1 with
  | stopped state part => exact part.trans hfile
  | completed state written status dest part =>
    obtain ⟨-, -, -, attempt, hattempt, hok⟩ := completed_file state ha
    exact absurd hok (hfail attempt hattempt)

section Scenario

def pairs (url : Bytes) : Resource :=
  if url = ascii "http://h/a" then ⟨ascii "ab", by decide⟩ else ⟨ascii "cd", by decide⟩

def jobA : Job := ⟨1, ascii "http://h/a", ascii "f", true, by decide, by decide, by decide⟩

def jobB : Job := ⟨2, ascii "http://h/b", ascii "f", true, by decide, by decide, by decide⟩

def wholeA : Response (ascii "ab") := Response.sized 200 [] (ascii "ab") (by decide +kernel)

def wholeB : Response (ascii "cd") := Response.sized 200 [] (ascii "cd") (by decide +kernel)

def cutA : Segment := ⟨wholeA.top ++ ascii "a", by decide +kernel, by decide +kernel⟩

def cutB : Segment := ⟨wholeB.top ++ ascii "c", by decide +kernel, by decide +kernel⟩

def Env.cutting (segment : Segment) : Env := .answering [⟨false, .data segment⟩, ⟨false, .closed⟩]

theorem Env.cutting_quiet (segment : Segment) : (Env.cutting segment).Quiet := answering_quiet _

variable {job : Job} {env : Env} {fs : Fs}

theorem Env.Quiet.unhindered_f (h : env.Quiet) (hdest : job.destPath = ascii "f")
    (hdirs : (Fs.lone (ascii "other") []).SameDirs fs) : Unhindered job env fs := by
  have hfree (path : Bytes) (hp : (Fs.lone (ascii "other") []).isDir (locate [] path) = false) :
      fs.isDir (locate fs.cwd path) = false := by
    rw [hdirs.isDir, hdirs.cwd]
    exact hp
  apply h.unhindered fs
  · rw [hdest]
    decide
  · rw [hdest]
    decide
  · rw [Job.partPath, hdest]
    exact hfree _ (by decide +kernel)
  · rw [hdest]
    exact hfree _ (by decide +kernel)

theorem sameDirs_f (hdest : job.destPath = ascii "f") (hdirs : (Fs.lone (ascii "other") []).SameDirs fs) :
    (Fs.lone (ascii "other") []).SameDirs (runTask job env fs).fs := by
  have h := runTask_sameDirs job env fs
  rw [ensureParentDir_name job.destPath env.mkdirError fs (by rw [hdest]; decide)] at h
  exact hdirs.trans h

theorem Unhindered.fetching (h : Unhindered job env fs) : Fetching job env fs := by
  have hsame := ensureParentDir_sameFiles job.destPath env.mkdirError fs
  have hpart := h.part
  have hplain := h.part_file
  rw [← hsame.cwd] at hpart hplain
  obtain ⟨ino, fs', hopen⟩ := Fs.openWrite_succeeds hpart hplain
  exact ⟨⟨h.parent, ⟨_, h.openError ▸ hopen⟩, h.httpError, h.requestIdError⟩, h.canceledBefore, h.dupError⟩

theorem begun_of_bytes (h : (fetchOf job env fs).bytes ≠ leftover job fs) : (fetchOf job env fs).sent ≠ [] :=
  fun hsilent => h (fetchToFd_silent hsilent)

def other : Fs := Fs.lone (ascii "other") []

def urlA : Url := ⟨ascii "http", ascii "h", ascii "80", ascii "/a"⟩

def urlB : Url := ⟨ascii "http", ascii "h", ascii "80", ascii "/b"⟩

def restA : Response (ascii "b") :=
  Response.sized 206 [.of (ascii "Content-Range") (ascii "bytes 1-1/2") rest_range] (ascii "b") (by decide +kernel)

def restB : Response (ascii "d") :=
  Response.sized 206 [.of (ascii "Content-Range") (ascii "bytes 1-1/2") rest_range] (ascii "d") (by decide +kernel)

def segmentA : Segment := ⟨restA.render, by decide +kernel, by decide +kernel⟩

def segmentB : Segment := ⟨restB.render, by decide +kernel, by decide +kernel⟩

/-- A download to `f` and its server, which is cut off behind `data` or sends what is missing behind one byte. -/
structure Peer where
  job : Job
  url : Url
  body : Bytes
  whole : Response body
  data : Bytes
  cut : Segment
  tail : Bytes
  rest : Response tail
  segment : Segment
  dest : job.destPath = ascii "f"
  empty : leftover job other = []
  parsed : parseUrl job.url = some url
  sent : ∀ held : ℕ, held < 2 →
    sendAll (requestHead url { url := job.url, resumeFrom := held }).length [.wrote 4096] = .ok ()
  code : whole.code = 200
  arrives : cut.bytes = whole.top ++ data
  short : ∀ held : ℕ, held < 2 →
    Source.body ⟨data, .closed⟩ (whole.announces url { url := job.url, resumeFrom := held }) =
      (data, .error (closedEarly 1))
  serves : ∀ held, (Env.cutting cut).world.net.Serves (pairs job.url) held
  restCode : rest.code = 206
  delimited : rest.framing.delimited = true
  renders : segment.bytes = rest.render
  resumed : (rest.info url { url := job.url, resumeFrom := (1 : ℕ) }).startOffset = (1 : ℕ)
  servesRest : (Env.delivering segment).world.net.Serves (pairs job.url) 1

theorem Peer.leaves (p : Peer) (hheld : (leftover p.job fs).length < 2)
    (hrun : Unhindered p.job (Env.cutting p.cut) fs) :
    (∃ info, ((Env.cutting p.cut).world.reply p.job.url (leftover p.job fs).length).announced = some info ∧
        info.startOffset = 0) ∧
      (fetchOf p.job (Env.cutting p.cut) fs).bytes = p.data ∧
      leftover p.job (runTask p.job (Env.cutting p.cut) fs).fs = p.data := by
  have hcode := p.code
  have hsegment := p.arrives
  have hreply : (Env.cutting p.cut).world.reply p.job.url (leftover p.job fs).length = _ :=
    Net.reply_top p.whole p.url p.data .closed p.parsed rfl rfl (p.sent _ hheld) (by simp [Source.ofTicks, hsegment])
      (by rw [hcode]; decide)
      (by rw [hcode]; decide)
  have hstart :
      (p.whole.info p.url { url := p.job.url, resumeFrom := (leftover p.job fs).length }).startOffset = 0 := by
    simp [Response.info, placement, hcode]
  rw [p.short _ hheld] at hreply
  have hannounced := congrArg Reply.announced hreply
  have hover : overlay 0 [] 0 p.data = p.data := overlay_complete 0 [] 0 List.nil_prefix le_rfl
  refine ⟨⟨_, hannounced, hstart⟩, ?_, ?_⟩
  · obtain ⟨hfile, -⟩ := fetchToFd_steady p.job.url (leftover p.job fs).length true (Env.cutting p.cut).world
      (leftover p.job fs) hrun.descriptor hrun.seekError hrun.truncateError hrun.writes hannounced hstart.ge
    rw [fetchOf, hfile, hstart, landing_zero, hreply]
    exact hover
  · rw [interrupted_leftover p.job (Env.cutting p.cut) fs hrun hannounced hstart.ge]
    · rw [hstart, landing_zero, hreply]
      exact hover
    · rw [hreply]
      intro attempt ha
      cases ha
      exact Error.noConfusion

theorem Peer.completes (p : Peer) (hdirs : other.SameDirs fs) (hleft : leftover p.job fs = ascii "a") :
    (runTask p.job (Env.delivering p.segment) fs).state = .completed ∧
      (runTask p.job (Env.delivering p.segment) fs).fs.content p.job.destPath =
        some (overlay 0 (ascii "a") 1 p.tail) := by
  have hrun : Unhindered p.job (Env.delivering p.segment) fs :=
    (Env.delivering_quiet p.segment).unhindered_f p.dest hdirs
  have hlen : (leftover p.job fs).length = 1 := by rw [hleft]; rfl
  have hcode := p.restCode
  have hanswers : (Env.delivering p.segment).world.net.Answers
      { url := p.job.url, resumeFrom := (leftover p.job fs).length } p.url
      ⟨[.wrote 4096], [⟨false, .data p.segment⟩]⟩ p.rest := by
    rw [hlen]
    exact Env.delivering_answers p.segment p.parsed (p.sent 1 (by decide)) p.delimited p.renders
  have h := answered_completes hrun hanswers (by rw [hcode]; decide) (by rw [hcode]; decide)
    (by rw [hlen]; exact p.resumed)
  rw [hleft] at h
  exact h

theorem serves_rest {job : Job} {body : Bytes} {rest : Response body} {segment : Segment}
    (hsegment : segment.bytes = rest.render) (hframing : rest.framing.delimited = true) (hcode : rest.code = 206)
    (hsize : 1 ≤ (pairs job.url).bytes.length) (hbody : body = (pairs job.url).bytes.drop 1)
    (hrange : rest.first (ascii "Content-Range") = contentRange 1 (pairs job.url).bytes.length) :
    (Env.delivering segment).world.net.Serves (pairs job.url) 1 := by
  intro hop
  refine .answered rest [] _ (.inr (.inr ⟨hframing, .inr ⟨hcode, 1, le_rfl, hsize, hbody, hrange⟩⟩)) ?_
  simp [Tick.bytes, hsegment]

def peerA : Peer where
  job := jobA
  url := urlA
  body := ascii "ab"
  whole := wholeA
  data := ascii "a"
  cut := cutA
  tail := ascii "b"
  rest := restA
  segment := segmentA
  dest := rfl
  empty := by decide +kernel
  parsed := by decide +kernel
  sent := by decide +kernel
  code := rfl
  arrives := rfl
  short := by decide +kernel
  serves _ := fun _ => .answered wholeA [] _ (.inr (.inr ⟨rfl, .inl ⟨rfl, by decide +kernel⟩⟩))
    ⟨ascii "b", by decide +kernel⟩
  restCode := rfl
  delimited := rfl
  renders := rfl
  resumed := by decide +kernel
  servesRest := serves_rest rfl rfl rfl (by decide) (by decide +kernel) (by decide +kernel)

def peerB : Peer where
  job := jobB
  url := urlB
  body := ascii "cd"
  whole := wholeB
  data := ascii "c"
  cut := cutB
  tail := ascii "d"
  rest := restB
  segment := segmentB
  dest := rfl
  empty := by decide +kernel
  parsed := by decide +kernel
  sent := by decide +kernel
  code := rfl
  arrives := rfl
  short := by decide +kernel
  serves _ := fun _ => .answered wholeB [] _ (.inr (.inr ⟨rfl, .inl ⟨rfl, by decide +kernel⟩⟩))
    ⟨ascii "d", by decide +kernel⟩
  restCode := rfl
  delimited := rfl
  renders := rfl
  resumed := by decide +kernel
  servesRest := serves_rest rfl rfl rfl (by decide) (by decide +kernel) (by decide +kernel)

def triedA : Fs := (runTask jobA (Env.cutting cutA) other).fs

theorem leaves_other (p : Peer) : leftover p.job (runTask p.job (Env.cutting p.cut) other).fs = p.data := by
  have hshort : (leftover p.job other).length < 2 := by rw [p.empty]; decide
  exact (p.leaves hshort ((Env.cutting_quiet p.cut).unhindered_f p.dest (.refl other))).2.2

theorem triedA_leftover : leftover jobA triedA = ascii "a" := leaves_other peerA

theorem triedA_dirs : other.SameDirs triedA := sameDirs_f rfl (.refl other)

theorem triedA_visits : Visits (ascii "f") pairs triedA [ascii "http://h/a"] :=
  .attempt (.start other peerA.empty) jobA (Env.cutting cutA) rfl (peerA.serves _) .added

def triedB : Fs := (runTask jobB (Env.cutting cutB) other).fs

theorem triedB_leftover : leftover jobA triedB = ascii "c" := by
  have hsame : leftover jobA triedB = leftover jobB triedB := by
    rw [leftover, leftover, show jobA.partPath = jobB.partPath from rfl]
  rw [hsame]
  exact leaves_other peerB

theorem triedB_dirs : other.SameDirs triedB := sameDirs_f rfl (.refl other)

def triedBoth : Fs := (runTask jobA (Env.cutting cutA) triedB).fs

theorem triedBoth_run : Unhindered jobA (Env.cutting cutA) triedB :=
  (Env.cutting_quiet cutA).unhindered_f rfl triedB_dirs

theorem triedBoth_cut :
    (∃ info, ((Env.cutting cutA).world.reply jobA.url (leftover jobA triedB).length).announced = some info ∧
        info.startOffset = 0) ∧
      (fetchOf jobA (Env.cutting cutA) triedB).bytes = ascii "a" ∧ leftover jobA triedBoth = ascii "a" := by
  have hshort : (leftover jobA triedB).length < 2 := by rw [triedB_leftover]; decide
  exact peerA.leaves hshort triedBoth_run

theorem triedBoth_dirs : other.SameDirs triedBoth := sameDirs_f rfl triedB_dirs

theorem triedBoth_visits : Visits (ascii "f") pairs triedBoth [ascii "http://h/a"] := by
  have hb : Visits (ascii "f") pairs triedB [ascii "http://h/b"] :=
    .attempt (.start other peerB.empty) jobB (Env.cutting cutB) rfl (peerB.serves _) .added
  obtain ⟨⟨info, ha, hstart⟩, hbytes, -⟩ := triedBoth_cut
  refine .attempt hb jobA (Env.cutting cutA) rfl (peerA.serves _)
    (.restarted triedBoth_run.fetching ?_ fun info' ha' => ?_)
  · apply begun_of_bytes
    rw [hbytes, triedB_leftover]
    decide
  · rw [ha] at ha'
    cases ha'
    exact hstart

end Scenario

end BinderDownload.DownloadService
