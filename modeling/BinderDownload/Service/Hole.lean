import BinderDownload.Http.Announced
import BinderDownload.Service.Resume

namespace BinderDownload.HttpService

open Text Http Files DownloadService

def World.head (world : World) (url : Bytes) (resumeFrom : ℕ) : Option (ℤ × Headers) :=
  world.net.head { url, resumeFrom } true

/-- The response starts inside the old file, and every byte of the new one is an old byte in its place or a
byte of the body in its place. -/
def Joined (old body new : Bytes) (startOffset : ℤ) : Prop :=
  startOffset ≤ old.length ∧
    ∀ i b, new[i]? = some b → old[i]? = some b ∨ startOffset.toNat ≤ i ∧ body[i - startOffset.toNat]? = some b

def ReachesInto (held : ℕ) (head : ℤ × Headers) : Prop :=
  head.1 = 206 → ∀ range, parseContentRange (head.2.get (ascii "Content-Range")) = some range → range.1 ≤ held

theorem placement_start (url : Bytes) (held : ℕ) (head : ℤ × Headers) :
    (placement { url, resumeFrom := held } head.1 head.2).1 ≤ held ↔ ReachesInto held head := by
  unfold placement ReachesInto
  by_cases h206 : head.1 = 206
  · simp only [h206, if_true, true_imp_iff]
    cases parseContentRange (head.2.get (ascii "Content-Range")) with
    | none => simp
    | some range => simp
  · simp [h206]

theorem landing_joined {bytes body : Bytes} {startOffset : ℤ} (hstart : startOffset ≤ bytes.length) :
    Joined bytes body (overlay 0 (landing bytes bytes.length startOffset) startOffset.toNat body) startOffset := by
  refine ⟨hstart, fun i b h => ?_⟩
  unfold landing at h
  split_ifs at h with hdrop
  · rcases overlay_getElem 0 [] startOffset.toNat (by simp [hdrop.1]) h with h | h
    · simp at h
    · exact .inr h
  · exact overlay_getElem 0 bytes startOffset.toNat (by omega) h

theorem fetchToFd_joined (url : Bytes) (callback : Bool) (world : World) (bytes : Bytes) (n : ℕ)
    (hok : (fetchToFd url bytes.length callback world bytes).status = some (.ok n)) :
    ∃ info head, (world.reply url bytes.length).announced = some info ∧ world.head url bytes.length = some head ∧
      (Joined bytes (world.reply url bytes.length).body (fetchToFd url bytes.length callback world bytes).bytes
        info.startOffset ↔ ReachesInto bytes.length head) := by
  rcases fetchToFd_spec url bytes.length callback world bytes with ⟨-, hfail⟩ | ⟨info, taken, ha, -, -, hbytes, hdone⟩
  · exact absurd hok (hfail n)
  · obtain ⟨rfl, -⟩ := hdone n hok
    obtain ⟨head, hhead, -, hplace⟩ := Net.reply_placed ha
    have hstart : info.startOffset = (placement { url, resumeFrom := bytes.length } head.1 head.2).1 :=
      (congrArg Prod.fst hplace)
    refine ⟨info, head, ha, hhead, ?_⟩
    rw [← placement_start url, ← hstart]
    constructor
    · exact fun hjoined => hjoined.1
    · intro hle
      rw [hbytes]
      exact landing_joined hle

theorem fetchToFd_joined_next :
    let rest := Response.sized 206
      [.of (ascii "Content-Range") (ascii "bytes 1-1/2") rest_range] (ascii "i") rest_sized
    let world := (Env.delivering ⟨rest.render, rest_ne, rest_le⟩).world
    (fetchToFd (ascii "http://h/") 1 true world (ascii "h")).status = some (.ok 1) ∧
      ∃ info head, (world.reply (ascii "http://h/") 1).announced = some info ∧
        world.head (ascii "http://h/") 1 = some head ∧
        (Joined (ascii "h") (world.reply (ascii "http://h/") 1).body
          (fetchToFd (ascii "http://h/") 1 true world (ascii "h")).bytes info.startOffset ↔ ReachesInto 1 head) := by
  intro rest world
  have hanswers : world.net.Answers { url := ascii "http://h/", resumeFrom := (1 : ℕ) }
      ⟨ascii "http", ascii "h", ascii "80", ascii "/"⟩ _ rest :=
    Env.delivering_answers _ (by decide +kernel) (by decide +kernel) rfl rfl
  obtain ⟨-, -, hok⟩ := fetchToFd_answered true (ascii "h") rfl rfl rfl (fun _ => List.not_mem_nil) hanswers (by decide)
    (by decide) (by decide +kernel)
  exact ⟨hok, fetchToFd_joined (ascii "http://h/") true world (ascii "h") 1 hok⟩

theorem fetchToFd_gap :
    let rest := Response.sized 206
      [.of (ascii "Content-Range") (ascii "bytes 3-3/4") (by decide +kernel)] (ascii "p") (by decide +kernel)
    let world := (Env.delivering ⟨rest.render, by decide +kernel, by decide +kernel⟩).world
    let fetched := fetchToFd (ascii "http://h/") 1 true world (ascii "h")
    fetched.status = some (.ok 1) ∧ fetched.bytes = ascii "h" ++ [0, 0] ++ ascii "p" ∧
      ∃ info, (world.reply (ascii "http://h/") 1).announced = some info ∧
        ¬Joined (ascii "h") (world.reply (ascii "http://h/") 1).body fetched.bytes info.startOffset := by
  intro rest world fetched
  have hanswers : world.net.Answers { url := ascii "http://h/", resumeFrom := (1 : ℕ) }
      ⟨ascii "http", ascii "h", ascii "80", ascii "/"⟩ _ rest :=
    Env.delivering_answers _ (by decide +kernel) (by decide +kernel) rfl rfl
  obtain ⟨hreply, hbytes, hdone⟩ := fetchToFd_answered true (ascii "h") rfl rfl rfl (fun _ => List.not_mem_nil)
    hanswers (by decide) (by decide) (by decide +kernel)
  refine ⟨hdone, hbytes.trans (by decide +kernel), _, by rw [hreply]; rfl, fun hjoined => ?_⟩
  exact absurd hjoined.1 (by decide +kernel)

end BinderDownload.HttpService
