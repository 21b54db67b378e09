import BinderDownload.Service.Resume

namespace BinderDownload.DownloadService

open Text Http Files HttpService

variable {body : Bytes}

def Prescribed (response : Response body) (resource : Resource) (k : ℕ) : Prop :=
  response.code = 200 ∧ body = resource.bytes ∨
    response.code = 206 ∧ k < resource.bytes.length ∧ body = resource.bytes.drop k ∧
      response.first (ascii "Content-Range") = contentRange k resource.bytes.length ∨
    response.code = 416 ∧ 0 < resource.bytes.length ∧ resource.bytes.length ≤ k

theorem leftover_finishes (job : Job) (env : Env) (fs : Fs) (resource : Resource) (k : ℕ) (url : Url) (conn : Conn)
    (body : Bytes) (response : Response body) (hk : k ≤ resource.bytes.length)
    (hpart : leftover job fs = resource.bytes.take k) (hserver : Prescribed response resource k)
    (hanswers : env.world.net.Answers { url := job.url, resumeFrom := k } url conn response)
    (hrun : Unhindered job env fs) :
    ((runTask job env fs).state = .completed ∧
        (runTask job env fs).fs.content job.destPath = some resource.bytes) ↔
      (k < resource.bytes.length ∨ resource.bytes.length = 0 ∨ response.code = 200) := by
  have hlen : (leftover job fs).length = k := by rw [hpart, List.length_take]; omega
  have hpre : leftover job fs <+: resource.bytes := hpart ▸ List.take_prefix _ _
  rw [← hlen] at hanswers
  have hfinish (hcode : response.code < 400) (hredirect : isRedirect response.code = false) (start : ℕ)
      (hle : start ≤ k) (hbody : body = resource.bytes.drop start)
      (hstart : (response.info url { url := job.url, resumeFrom := (leftover job fs).length }).startOffset = start) :
      (runTask job env fs).state = .completed ∧
        (runTask job env fs).fs.content job.destPath = some resource.bytes := by
    obtain ⟨hdone, hdest⟩ := answered_completes hrun hanswers hcode hredirect hstart
    obtain ⟨hland, hroom⟩ := landing_within hpre (hlen.symm ▸ hle)
    refine ⟨hdone, ?_⟩
    rw [hdest, hbody, overlay_complete 0 _ start hland hroom]
  rcases hserver with ⟨hcode, hbody⟩ | ⟨hcode, hlt, hbody, hrange⟩ | ⟨hcode, hpos, hge⟩
  · have hall := hfinish (by omega) (by simp [isRedirect, hcode]) 0 (Nat.zero_le _) (by simpa using hbody)
      (by simp [Response.info, placement, hcode])
    exact ⟨fun _ => .inr (.inr hcode), fun _ => hall⟩
  · have hfits := resource.fits
    have hall := hfinish (by omega) (by simp [isRedirect, hcode]) k le_rfl hbody
      (by simp [Response.info, placement, hcode, response.headers_get, hrange,
        parseContentRange_render k resource.bytes.length (by omega) hfits])
    exact ⟨fun _ => .inl hlt, fun _ => hall⟩
  · have hstop : (runTask job env fs).state ≠ .completed := silent_stops (hanswers.refused true (by omega))
    exact ⟨fun h => absurd h.1 hstop, fun h => by omega⟩

theorem leftover_finishes_rest :
    let job : Job := ⟨1, ascii "http://h/f", ascii "f", true, by decide, by decide, by decide⟩
    let response := Response.sized 206
      [.of (ascii "Content-Range") (ascii "bytes 1-1/2") rest_range] (ascii "i") rest_sized
    let env := Env.delivering ⟨response.render, rest_ne, rest_le⟩
    let fs := Fs.lone (ascii "f.part") (ascii "h")
    (runTask job env fs).state = .completed ∧ (runTask job env fs).fs.content (ascii "f") = some (ascii "hi") := by
  intro job response env fs
  have h := leftover_finishes job env fs ⟨ascii "hi", by decide⟩ 1 ⟨ascii "http", ascii "h", ascii "80", ascii "/f"⟩
    _ (ascii "i") response (by decide) (by decide +kernel)
    (.inr (.inl ⟨rfl, by decide, by decide, by decide +kernel⟩))
    (Env.delivering_resumes _ (by decide +kernel) rfl rfl)
    ((Env.delivering_quiet _).unhindered fs (by decide) (by decide) (by decide +kernel) (by decide +kernel))
  exact h.mpr (.inl (by decide))

theorem leftover_whole_refused :
    let resource : Resource := ⟨ascii "hi", by decide⟩
    let job : Job := ⟨1, ascii "http://h/f", ascii "f", true, by decide, by decide, by decide⟩
    let url : Url := ⟨ascii "http", ascii "h", ascii "80", ascii "/f"⟩
    let response := Response.sized 416 [] [] (by decide +kernel)
    let segment : Segment := ⟨response.render, by decide +kernel, by decide +kernel⟩
    let env := Env.delivering segment
    let fs := Fs.lone (ascii "f.part") (ascii "hi")
    leftover job fs = resource.bytes.take 2 ∧ Prescribed response resource 2 ∧
      env.world.net.Answers { url := job.url, resumeFrom := 2 } url ⟨[.wrote 4096], [⟨false, .data segment⟩]⟩ response ∧
      Unhindered job env fs ∧ (runTask job env fs).state ≠ .completed := by
  intro resource job url response segment env fs
  have hanswers : env.world.net.Answers { url := job.url, resumeFrom := 2 } url _ response :=
    Env.delivering_answers segment (by decide +kernel) (by decide +kernel) rfl rfl
  refine ⟨by decide +kernel, .inr (.inr ⟨rfl, by decide, by decide⟩), hanswers, ?_, ?_⟩
  · exact (Env.delivering_quiet _).unhindered fs (by decide) (by decide) (by decide +kernel) (by decide +kernel)
  · exact silent_stops (hanswers.refused true (by decide))

end BinderDownload.DownloadService
