import BinderDownload.Http.Announced
import BinderDownload.Service.Messages
import BinderDownload.Service.Settled
import BinderDownload.Service.Size

namespace BinderDownload.DownloadService.Tasks

open Text Http Files HttpService

def Honest (reply : Http.Reply) (resource : Bytes) (held : ℕ) : Prop :=
  ∀ info attempt, reply.announced = some info → reply.attempt = some attempt → attempt.result.error = .ok →
    info.statusCode = 200 ∧ reply.body = resource ∨
      info.statusCode = 206 ∧ ∃ start : ℕ, start ≤ held ∧ info.startOffset = start ∧ reply.body = resource.drop start

def Fitting (reply : Http.Reply) (resource old : Bytes) : Prop :=
  ∀ info, reply.announced = some info →
    info.startOffset = 0 ∨ old.length ≤ resource.length ∨ info.startOffset = old.length

theorem Honest.offset {world : World} {url resource : Bytes} {held : ℕ}
    (h : Honest (world.reply url held) resource held) {info : ResponseInfo} {attempt : Attempt}
    (ha : (world.reply url held).announced = some info) (hattempt : (world.reply url held).attempt = some attempt)
    (hok : attempt.result.error = .ok) :
    ∃ start : ℕ, start ≤ held ∧ info.startOffset = start ∧ (world.reply url held).body = resource.drop start := by
  rcases h info attempt ha hattempt hok with ⟨hcode, hbody⟩ | ⟨-, hrest⟩
  · obtain ⟨head, -, hstatus, hplace⟩ := Net.reply_placed ha
    rw [← hstatus, hcode] at hplace
    refine ⟨0, Nat.zero_le _, ?_, by rw [hbody, List.drop_zero]⟩
    exact congrArg Prod.fst hplace
  · exact hrest

theorem honest_placed {world : World} {url resource old : Bytes}
    (hhonest : Honest (world.reply url old.length) resource old.length)
    (hfitting : Fitting (world.reply url old.length) resource old) {written : ℕ}
    (hok : (fetchToFd url old.length true world old).status = some (.ok written)) :
    Placed (fetchToFd url old.length true world old) written := by
  rcases fetchToFd_spec url old.length true world old with ⟨-, hfail⟩ | ⟨info, taken, ha, -, -, hbytes, hall⟩
  · exact absurd hok (hfail written)
  rcases fetchToFd_sent url old.length world old with ⟨-, hfail⟩ | ⟨info', ms, ha', -, hsent, -, -⟩
  · exact absurd hok (hfail written)
  rw [ha] at ha'
  cases ha'
  obtain ⟨rfl, rfl, attempt, hattempt, hsuccess⟩ := hall written hok
  obtain ⟨start, hheld, hstart, hbody⟩ := hhonest.offset ha hattempt hsuccess
  refine ⟨_, _, _, _, _, hsent, ?_, ?_⟩
  · intro m hm
    obtain ⟨n, -, rfl⟩ := List.mem_map.mp hm
    exact ⟨_, _, rfl⟩
  · rw [hbytes, landing_length, hstart]
    have hlength : (world.reply url old.length).body.length = resource.length - start := by
      rw [hbody, List.length_drop]
    have hfits := hfitting info ha
    rw [hstart] at hfits
    split_ifs with hz hempty
    · omega
    · rw [hempty, List.length_nil] at hlength ⊢
      omega
    · have hpos : 0 < (world.reply url old.length).body.length := List.length_pos_iff.mpr hempty
      rw [Int.toNat_natCast]
      omega

theorem completed_counters (job : Job) (fs : Fs) (world : World) (resource : Bytes) (moves : List Move) (s : Site)
    (hhonest : Honest (world.reply job.url (leftover job fs).length) resource (leftover job fs).length)
    (hfitting : Fitting (world.reply job.url (leftover job fs).length) resource (leftover job fs))
    (hrun : run (Site.step world) { task := { job }, fs } moves = some s)
    (htimely : Obeys (Site.step world) Site.Timely { task := { job }, fs } moves)
    (hstate : s.task.state = .completed) :
    s.task.counters.downloaded = s.fs.fileSize job.destPath ∧ s.task.counters.total = s.fs.fileSize job.destPath := by
  have hplaced (written : ℕ) := @honest_placed world job.url resource (leftover job fs) hhonest hfitting written
  have hinitial : Site.Sound job (leftover job fs)
      (fetchToFd job.url (leftover job fs).length true world (leftover job fs)) { task := { job }, fs } :=
    ⟨rfl, .fresh job, ⟨rfl, rfl⟩, rfl⟩
  have hsound := run_invariant (fun h hrule hstep => Site.Sound.step h rfl hplaced hrule hstep) hinitial hrun htimely
  exact hsound.completed hstate

def opens : List Move :=
  [.go, .parents (fun _ => none), .measure, .go, .go, .openPart none, .httpService none, .newRequestId (.ok 1), .go,
    .go, .dup none, .fetchToFd]

def closes : List Move :=
  [.reply, .go, .go, .go, .rename none, .size 5, .go, .go, .go, .go]

theorem completed_counters_resumed :
    let job : Job := ⟨1, ascii "http://h/f", ascii "f", true, by decide, by decide, by decide⟩
    let response := Response.sized 206
      [.of (ascii "Content-Range") (ascii "bytes 1-1/2") rest_range] (ascii "i") rest_sized
    let world := (Env.delivering ⟨response.render, rest_ne, rest_le⟩).world
    let fs := Fs.lone (ascii "f.part") (ascii "h")
    let moves := opens ++ .send :: List.replicate 5 (.relay 0) ++ .send :: closes ++ List.replicate 6 (.relay 300)
    ∃ s, run (Site.step world) { task := { job }, fs } moves = some s ∧ s.task.state = .completed ∧
      s.task.counters.downloaded = s.fs.fileSize (ascii "f") ∧ s.task.counters.total = s.fs.fileSize (ascii "f") := by
  intro job response world fs moves
  obtain ⟨s, hs⟩ : ∃ s, run (Site.step world) { task := { job }, fs } moves = some s :=
    Option.isSome_iff_exists.mp (by decide +kernel)
  have hstate : (run (Site.step world) { task := { job }, fs } moves).map (fun s => s.task.state) =
      some .completed := by
    decide +kernel
  rw [hs] at hstate
  have hanswers : world.net.Answers { url := job.url, resumeFrom := (leftover job fs).length }
      ⟨ascii "http", ascii "h", ascii "80", ascii "/f"⟩ _ response :=
    Env.delivering_resumes _ (by decide +kernel) rfl rfl
  have hreply : world.reply job.url (leftover job fs).length = _ := hanswers.reply true (by decide) (by decide)
  refine ⟨s, hs, Option.some.inj hstate, completed_counters job fs world (ascii "hi") moves s ?_ ?_ hs ?_
    (Option.some.inj hstate)⟩
  · intro info attempt ha hattempt hok
    rw [hreply] at ha ⊢
    cases ha
    exact .inr ⟨rfl, 1, by decide +kernel, by decide +kernel, rfl⟩
  · intro info ha
    exact .inr (.inl (by decide +kernel))
  · decide +kernel

theorem completed_counters_overtaken :
    let job : Job := ⟨1, ascii "http://h/f", ascii "f", true, by decide, by decide, by decide⟩
    let response := Response.sized 200 [] (ascii "hi") (by decide +kernel)
    let world := (Env.delivering ⟨response.render, by decide +kernel, by decide +kernel⟩).world
    let fs := Fs.lone (ascii "f.part") (ascii "h")
    let moves := opens ++ .send :: .send :: closes
    Honest (world.reply job.url (leftover job fs).length) (ascii "hi") (leftover job fs).length ∧
      ∃ s, run (Site.step world) { task := { job }, fs } moves = some s ∧ s.task.state = .completed ∧
        s.task.counters.downloaded = 3 ∧ s.fs.fileSize (ascii "f") = 2 := by
  intro job response world fs moves
  constructor
  · have hanswers : world.net.Answers { url := job.url, resumeFrom := (leftover job fs).length }
        ⟨ascii "http", ascii "h", ascii "80", ascii "/f"⟩ _ response :=
      Env.delivering_resumes _ (by decide +kernel) rfl rfl
    have hreply : world.reply job.url (leftover job fs).length = _ := hanswers.reply true (by decide) (by decide)
    intro info attempt ha hattempt hok
    rw [hreply] at ha ⊢
    cases ha
    exact .inl ⟨rfl, rfl⟩
  · have hend : (run (Site.step world) { task := { job }, fs } moves).map
        (fun s => (s.task.state, s.task.counters.downloaded, s.fs.fileSize (ascii "f"))) = some (.completed, 3, 2) := by
      decide +kernel
    obtain ⟨s, hs, hvalues⟩ := Option.map_eq_some_iff.mp hend
    simp only [Prod.mk.injEq] at hvalues
    exact ⟨s, hs, hvalues⟩

theorem completed_counters_overhang :
    let job : Job := ⟨1, ascii "http://h/f", ascii "f", true, by decide, by decide, by decide⟩
    let response := Response.sized 206
      [.of (ascii "Content-Range") (ascii "bytes 1-1/2") rest_range] (ascii "i") rest_sized
    let world := (Env.delivering ⟨response.render, rest_ne, rest_le⟩).world
    let fs := Fs.lone (ascii "f.part") (ascii "hello")
    let moves := opens ++ .send :: .send :: List.replicate 11 (.relay 300) ++ closes
    ∃ s, run (Site.step world) { task := { job }, fs } moves = some s ∧ s.task.state = .completed ∧
      s.task.counters.downloaded = 2 ∧ s.fs.fileSize (ascii "f") = 5 := by
  intro job response world fs moves
  have hend : (run (Site.step world) { task := { job }, fs } moves).map
      (fun s => (s.task.state, s.task.counters.downloaded, s.fs.fileSize (ascii "f"))) = some (.completed, 2, 5) := by
    decide +kernel
  obtain ⟨s, hs, hvalues⟩ := Option.map_eq_some_iff.mp hend
  simp only [Prod.mk.injEq] at hvalues
  exact ⟨s, hs, hvalues⟩

end BinderDownload.DownloadService.Tasks
