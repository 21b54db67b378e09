import BinderDownload.Files.Frame
import BinderDownload.Service.Establish
import BinderDownload.Service.Resume

namespace BinderDownload.DownloadService

open Text Http Files HttpService

section Frame

variable (job : Job) (env : Env) {loc : Loc} {fs fs' : Fs} {ino : ℕ}

/-- The end of an attempt, seen from a place other than that of the `.part` file: nothing has happened there before the
rename of the `.part` file, which only a completed attempt has behind it. -/
inductive Leaves (job : Job) (env : Env) (loc : Loc) (fs : Fs) (out : Outcome) : Prop
  | stopped (state : out.state ≠ .completed) (keeps : fs.Keeps loc out.fs)
  | renamed {before : Fs} {ino : ℕ} (state : out.state = .completed) (keeps : fs.Keeps loc before)
      (file : before.node (locate before.cwd job.partPath) = some (.file ino))
      (rename : before.rename job.partPath job.destPath env.renameError = .ok out.fs)

variable {job env}

theorem Leaves.since {out : Outcome} (h : Leaves job env loc fs' out) (hkeeps : fs.Keeps loc fs') :
    Leaves job env loc fs out := by
  cases h with
  | stopped state keeps => exact .stopped state (hkeeps.trans keeps)
  | renamed state keeps file rename => exact .renamed state (hkeeps.trans keeps) file rename

variable (job env)

theorem fail_leaves (counters : Counters) (code : ErrorCode) (message : Bytes)
    (hpart : loc ≠ locate fs.cwd job.partPath) : Leaves job env loc fs (fail job env counters fs code message) := by
  refine .stopped (by simp [fail]) ?_
  unfold fail
  dsimp only
  split_ifs
  · exact Fs.unlink_keeps hpart
  · exact .refl loc fs

theorem cancelDone_leaves (counters : Counters) : Leaves job env loc fs (cancelDone job counters fs) :=
  .stopped (by simp [cancelDone]) (.refl loc fs)

theorem complete_leaves (counters : Counters) (written : ℕ)
    (hfile : fs.node (locate fs.cwd job.partPath) = some (.file ino)) (hpart : loc ≠ locate fs.cwd job.partPath) :
    Leaves job env loc fs (complete job env counters written fs) := by
  unfold complete
  cases hr : fs.rename job.partPath job.destPath env.renameError with
  | error e => exact fail_leaves job env _ _ _ hpart
  | ok fs' => exact .renamed rfl (.refl loc fs) hfile hr

variable {job}

theorem transfer_leaves (resumeFrom : ℕ) (h : Opened job fs fs' ino) (hpart : loc ≠ locate fs'.cwd job.partPath) :
    Leaves job env loc fs' (transfer job env resumeFrom ino fs') := by
  have hnode : fs'.node (locate fs'.cwd job.partPath) = some (.file ino) := h.cwd ▸ h.file
  have hother : fs'.node loc ≠ some (.file ino) := fun hloc => hpart (fs'.single hloc hnode)
  obtain ⟨counters, out, hout, hstate, hfs, -⟩ := transfer_replies job env resumeFrom ino fs'
  generalize fetchToFd job.url resumeFrom true env.world (fs'.data ino) = fetched at hout
  have hleaves : Leaves job env loc (fs'.setData ino fetched.bytes) out := by
    cases hout with
    | waiting reply goes => exact .stopped (by simp) (.refl loc _)
    | canceled aborts => exact cancelDone_leaves job env _
    | failed code message goes => exact fail_leaves job env _ _ _ hpart
    | completed written reply goes => exact complete_leaves job env _ written hnode hpart
  cases hleaves.since (Fs.setData_keeps hother) with
  | stopped state keeps => exact .stopped (hstate ▸ state) (hfs ▸ keeps)
  | renamed state keeps file rename => exact .renamed (hstate.trans state) keeps file (hfs ▸ rename)

theorem runTask_leaves (hpart : loc ≠ locate fs.cwd job.partPath) :
    Leaves job env loc (ensureParentDir job.destPath env.mkdirError fs).2 (runTask job env fs) := by
  have hcwd := (ensureParentDir_sameFiles job.destPath env.mkdirError fs).cwd
  have hways := runTask_attempts job env fs
  generalize runTask job env fs = out at hways ⊢
  rw [← hcwd] at hpart
  cases hways with
  | parentless error parent =>
    rw [parent] at hpart ⊢
    exact fail_leaves job env _ _ _ hpart
  | unopened counters message parent opened =>
    rw [parent] at hpart ⊢
    exact fail_leaves job env _ _ _ hpart
  | failed counters code message parent opened cause =>
    rw [parent] at hpart ⊢
    have hpart' := (openWrite_opened opened).cwd.symm ▸ hpart
    exact (fail_leaves job env _ _ _ hpart').since (Fs.openWrite_keeps opened hpart)
  | canceled counters parent opened http requestId early =>
    rw [parent] at hpart ⊢
    exact (cancelDone_leaves job env _).since (Fs.openWrite_keeps opened hpart)
  | transferred parent opened http requestId early dup =>
    rw [parent] at hpart ⊢
    have hpart' := (openWrite_opened opened).cwd.symm ▸ hpart
    exact (transfer_leaves env _ (openWrite_opened opened) hpart').since (Fs.openWrite_keeps opened hpart)

end Frame

section Confined

structure Confined (job : Job) (env : Env) (fs : Fs) : Prop where
  unfinished : (runTask job env fs).state ≠ .completed → fs.Keeps (locate fs.cwd job.destPath) (runTask job env fs).fs
  only : ∀ loc, fs.Keeps loc (runTask job env fs).fs ∨
    (fs.Free loc ∧ (runTask job env fs).fs.node loc = some .dir ∧
      ∃ q, Ancestor q job.destPath ∧ locate fs.cwd q = loc) ∨
    loc = locate fs.cwd job.partPath ∨
    loc = locate fs.cwd job.destPath ∧ (runTask job env fs).state = .completed ∧
      ∃ before, fs.Keeps loc before ∧
        before.rename job.partPath job.destPath env.renameError = .ok (runTask job env fs).fs

variable {job : Job} {env : Env} {fs : Fs}

theorem ensureParentDir_keeps (hdenied : ∀ built, env.mkdirError built ≠ some .eexist) {loc : Loc}
    (h : ¬Makes fs env.mkdirError job.destPath loc) :
    fs.Keeps loc (ensureParentDir job.destPath env.mkdirError fs).2 := by
  have hsame := ensureParentDir_sameFiles job.destPath env.mkdirError fs
  refine ⟨hsame.cwd, ?_, fun ino _ => by rw [hsame.data]⟩
  rcases ensureParentDir_changes fs job.destPath hdenied loc with hnode | ⟨-, hmakes⟩
  · exact hnode
  · exact absurd hmakes h

theorem makes_stays (job : Job) (hdenied : ∀ built, env.mkdirError built ≠ some .eexist) {loc : Loc}
    (h : Makes fs env.mkdirError job.destPath loc) : (runTask job env fs).fs.node loc = some .dir := by
  have hdir : (ensureParentDir job.destPath env.mkdirError fs).2.isDir loc = true := by
    simp [Fs.isDir, ensureParentDir_makes fs job.destPath hdenied h]
  rw [← (runTask_sameDirs job env fs).isDir] at hdir
  have hroot : loc ≠ [] := by
    rintro rfl
    have := h.1.1
    rw [Fs.isDir_root] at this
    cases this
  simpa [Fs.isDir, hroot] using hdir

theorem makes_dest (hdenied : ∀ built, env.mkdirError built ≠ some .eexist)
    (h : Makes fs env.mkdirError job.destPath (locate fs.cwd job.destPath)) :
    (runTask job env fs).state ≠ .completed := by
  intro hstate
  have hnode := makes_stays job hdenied h
  have hcwd : (runTask job env fs).fs.cwd = fs.cwd :=
    (runTask_sameDirs job env fs).cwd.trans (ensureParentDir_sameFiles job.destPath env.mkdirError fs).cwd
  cases runTask_ends job env fs with
  | untouched state _ => exact state hstate
  | transferred ht =>
    cases ht with
    | stopped state _ => exact state hstate
    | completed _ written status dest part => simp [Fs.content, hcwd, hnode] at dest

theorem Confined.not_makes (hdenied : ∀ built, env.mkdirError built ≠ some .eexist) (h : Confined job env fs) :
    ¬Makes fs env.mkdirError job.destPath (locate fs.cwd job.destPath) := by
  intro hmakes
  have hnode := (h.unfinished (makes_dest hdenied hmakes)).node
  rw [makes_stays job hdenied hmakes, hmakes.1.2] at hnode
  cases hnode

theorem runTask_changes (hdenied : ∀ built, env.mkdirError built ≠ some .eexist) (loc : Loc) :
    fs.Keeps loc (runTask job env fs).fs ∨
      (fs.Free loc ∧ (runTask job env fs).fs.node loc = some .dir ∧
        ∃ q, Ancestor q job.destPath ∧ locate fs.cwd q = loc) ∨
      loc = locate fs.cwd job.partPath ∨
      loc = locate fs.cwd job.destPath ∧ (runTask job env fs).state = .completed ∧
        ∃ before, fs.Keeps loc before ∧
          before.rename job.partPath job.destPath env.renameError = .ok (runTask job env fs).fs := by
  by_cases hpart : loc = locate fs.cwd job.partPath
  · exact .inr (.inr (.inl hpart))
  · by_cases hmakes : Makes fs env.mkdirError job.destPath loc
    · obtain ⟨q, hq, hloc, -⟩ := hmakes.2
      obtain ⟨p, hp, hplace⟩ := ancestor_of_way fs.cwd hq
      exact .inr (.inl ⟨hmakes.1, makes_stays job hdenied hmakes, p, hp, hplace.trans hloc⟩)
    · cases (runTask_leaves env hpart).since (ensureParentDir_keeps hdenied hmakes) with
      | stopped _ keeps => exact .inl keeps
      | renamed state keeps file rename =>
        by_cases hloc : loc = locate fs.cwd job.destPath
        · exact .inr (.inr (.inr ⟨hloc, state, _, keeps, rename⟩))
        · refine .inl (keeps.trans (Fs.rename_keeps file rename ?_ ?_))
          · rwa [keeps.cwd]
          · rwa [keeps.cwd]

theorem confined_plain (hdenied : ∀ built, env.mkdirError built ≠ some .eexist) (hplain : (0 : UInt8) ∉ job.destPath) :
    Confined job env fs ↔ ¬Makes fs env.mkdirError job.destPath (locate fs.cwd job.destPath) := by
  constructor
  · exact Confined.not_makes hdenied
  · intro hno
    have hdest : locate fs.cwd job.destPath ≠ locate fs.cwd job.partPath :=
      (locate_part_ne fs.cwd job.destPath job.dest_ne hplain).symm
    refine ⟨fun hstate => ?_, runTask_changes hdenied⟩
    cases (runTask_leaves env hdest).since (ensureParentDir_keeps hdenied hno) with
    | stopped _ keeps => exact keeps
    | renamed state _ _ _ => exact absurd state hstate

end Confined

section Sealed

variable {job job' : Job} {env env' : Env} {fs : Fs}

structure Env.Alike (env env' : Env) : Prop where
  mkdirError : env'.mkdirError = env.mkdirError
  openError : env'.openError = env.openError
  unlinkDenied : env'.unlinkDenied = env.unlinkDenied

/-- An attempt can neither open the file at the `.part` path nor remove it. -/
structure Sealed (job : Job) (env : Env) (fs : Fs) : Prop where
  opened : (ensureParentDir job.destPath env.mkdirError fs).1 = none →
    ∀ p, (ensureParentDir job.destPath env.mkdirError fs).2.openWrite job.partPath env.openError ≠ .ok p
  removed : (ensureParentDir job.destPath env.mkdirError fs).2.fileSize job.partPath = 0 →
    (ensureParentDir job.destPath env.mkdirError fs).2.Keeps (locate fs.cwd job.partPath)
      ((ensureParentDir job.destPath env.mkdirError fs).2.unlink job.partPath env.unlinkDenied)

theorem Sealed.alike (h : Sealed job env fs) (hdest : job'.destPath = job.destPath) (halike : env.Alike env') :
    Sealed job' env' fs := by
  obtain ⟨hopened, hremoved⟩ := h
  unfold Job.partPath at hopened hremoved
  refine ⟨?_, ?_⟩
  · rwa [Job.partPath, hdest, halike.mkdirError, halike.openError]
  · rwa [Job.partPath, hdest, halike.mkdirError, halike.unlinkDenied]

theorem unopened_fails (h : (ensureParentDir job.destPath env.mkdirError fs).1 = none →
      ∀ p, (ensureParentDir job.destPath env.mkdirError fs).2.openWrite job.partPath env.openError ≠ .ok p) :
    (runTask job env fs).state = .failed ∧ ∃ counters code message, (runTask job env fs).fs =
      (fail job env counters (ensureParentDir job.destPath env.mkdirError fs).2 code message).fs := by
  have hways := runTask_attempts job env fs
  generalize runTask job env fs = out at hways ⊢
  cases hways with
  | parentless error parent => exact ⟨rfl, _, _, _, by rw [parent]⟩
  | unopened counters message parent opened => exact ⟨rfl, _, _, _, by rw [parent]⟩
  | failed counters code message parent opened cause =>
    rw [parent] at h
    exact absurd opened (h rfl _)
  | canceled counters parent opened http requestId early =>
    rw [parent] at h
    exact absurd opened (h rfl _)
  | transferred parent opened http requestId early dup =>
    rw [parent] at h
    exact absurd opened (h rfl _)

theorem Sealed.keeps (hdenied : ∀ built, env.mkdirError built ≠ some .eexist) (h : Sealed job env fs)
    (hno : ¬Makes fs env.mkdirError job.destPath (locate fs.cwd job.partPath)) :
    fs.Keeps (locate fs.cwd job.partPath) (runTask job env fs).fs := by
  obtain ⟨-, counters, code, message, hfs⟩ := unopened_fails h.opened
  have hparent := ensureParentDir_keeps hdenied hno
  rw [hfs]
  simp only [fail]
  split_ifs with hempty
  · exact hparent.trans (h.removed hempty)
  · exact hparent

def Env.stuck (env : Env) (n : ℕ) (segment : Segment) : Env where
  mkdirError := env.mkdirError
  openError := env.openError
  unlinkDenied := env.unlinkDenied
  renameError := some (.other [])
  world := { net := ⟨fun _ => .connected ⟨[.wrote n.succPNat], [⟨false, .data segment⟩]⟩, fun _ => false⟩ }

theorem Env.stuck_answers {request : Http.Request} {url : Url} {body : Bytes} {response : Response body} {n : ℕ}
    (segment : Segment) (hparsed : parseUrl request.url = some url) (hn : n = (requestHead url request).length)
    (hframing : response.framing.delimited = true) (hsegment : segment.bytes = response.render) :
    (env.stuck n segment).world.net.Answers request url ⟨[.wrote n.succPNat], [⟨false, .data segment⟩]⟩ response := by
  refine ⟨hparsed, rfl, rfl, ?_, .inl ⟨hframing, [], ?_⟩⟩
  · rw [← hn]
    cases n with
    | zero => rfl
    | succ k => simp [sendAll]
  · have h : Delivers request.idleTimeoutMs (segment.bytes ++ []) _ := .data segment (.done [])
    rwa [hsegment] at h

theorem complete_denied (counters : Counters) (written : ℕ) (h : env.renameError ≠ none) :
    (complete job env counters written fs).state ≠ .completed := by
  obtain ⟨e, he⟩ := Option.ne_none_iff_exists'.mp h
  unfold complete
  cases hr : fs.rename job.partPath job.destPath env.renameError with
  | error e => simp [fail]
  | ok fs' => exact absurd (he ▸ hr) Fs.rename_denied

theorem transfer_denied (resumeFrom ino : ℕ) (h : env.renameError ≠ none) :
    (transfer job env resumeFrom ino fs).state ≠ .completed := by
  obtain ⟨counters, out, hout, hstate, -⟩ := transfer_replies job env resumeFrom ino fs
  rw [hstate]
  cases hout with
  | waiting reply goes => simp
  | canceled aborts => simp [cancelDone]
  | failed code message goes => simp [fail]
  | completed written reply goes => exact complete_denied _ written h

theorem stuck_leaves {p : ℕ × Fs} (hparent : (ensureParentDir job.destPath env.mkdirError fs).1 = none)
    (hopen : (ensureParentDir job.destPath env.mkdirError fs).2.openWrite job.partPath env.openError = .ok p)
    {url : Url} (hurl : parseUrl job.url = some url) {body : Bytes} (response : Response body) (segment : Segment)
    (hcode : response.code = 200) (hframing : response.framing.delimited = true)
    (hsegment : segment.bytes = response.render) :
    ∃ n, (runTask job (env.stuck n segment) fs).state ≠ .completed ∧
      leftover job (runTask job (env.stuck n segment) fs).fs = body := by
  let request : Http.Request := { url := job.url, resumeFrom := (leftover job fs).length }
  refine ⟨(requestHead url request).length, ?_⟩
  generalize hstuck : env.stuck (requestHead url request).length segment = stuck
  have hanswers : stuck.world.net.Answers request url
      ⟨[.wrote (requestHead url request).length.succPNat], [⟨false, .data segment⟩]⟩ response := by
    rw [← hstuck]
    exact Env.stuck_answers segment hurl rfl hframing hsegment
  have hstart : (response.info url request).startOffset = 0 := by simp [Response.info, placement, hcode]
  obtain ⟨-, hbytes, -⟩ := fetchToFd_answered true (leftover job fs) (by rw [← hstuck]; rfl) (by rw [← hstuck]; rfl)
    (by rw [← hstuck]; rfl) (by rw [← hstuck]; exact fun _ => List.not_mem_nil) hanswers (by rw [hcode]; decide)
    (by rw [hcode]; decide) hstart.ge
  have hbody : (fetchOf job stuck fs).bytes = body := by
    have hland : landing (leftover job fs) (leftover job fs).length 0 = [] := by
      unfold landing
      split_ifs with h
      · rfl
      · apply List.eq_nil_of_length_eq_zero
        omega
    rw [fetchOf, hbytes, hstart, hland]
    exact overlay_complete 0 [] 0 List.nil_prefix le_rfl
  obtain ⟨ino, fs2⟩ := p
  have hrun : runTask job stuck fs = transfer job stuck
      ((ensureParentDir job.destPath env.mkdirError fs).2.fileSize job.partPath) ino fs2 := by
    rw [← hstuck]
    exact runTask_transfer (Prod.ext hparent rfl) hopen rfl rfl rfl rfl
  have hstop : (runTask job stuck fs).state ≠ .completed := by
    rw [hrun]
    exact transfer_denied _ ino (by rw [← hstuck]; simp [Env.stuck])
  have hleft := leftover_sameFiles job (ensureParentDir_sameFiles job.destPath env.mkdirError fs)
  refine ⟨hstop, ?_⟩
  have hends := (transfer_ends stuck (openWrite_opened hopen)).congr hleft
  rw [← hrun] at hends
  cases hends with
  | stopped state part => exact part.trans hbody
  | completed state written status dest part => exact absurd state hstop

theorem keeps_leftover (hnul : (0 : UInt8) ∈ job.destPath) {fs' : Fs} (h : fs.Keeps (locate fs.cwd job.destPath) fs') :
    leftover job fs' = DownloadService.leftover job fs := by
  rw [DownloadService.leftover, DownloadService.leftover, content_part_nul fs' hnul, content_part_nul fs hnul,
    h.content]

def smallResponse : Response (ascii "a") := Response.sized 200 [] (ascii "a") (by decide +kernel)

def emptyResponse : Response [] := Response.sized 200 [] [] (by decide +kernel)

def smallSegment : Segment := ⟨smallResponse.render, by decide +kernel, by decide +kernel⟩

def emptySegment : Segment := ⟨emptyResponse.render, by decide +kernel, by decide +kernel⟩

theorem confined_unopened (hnul : (0 : UInt8) ∈ job.destPath)
    (h : ∀ job' env', job'.destPath = job.destPath → env.Alike env' → Confined job' env' fs)
    (hparent : (ensureParentDir job.destPath env.mkdirError fs).1 = none) (p : ℕ × Fs) :
    (ensureParentDir job.destPath env.mkdirError fs).2.openWrite job.partPath env.openError ≠ .ok p := by
  intro hopen
  let other : Job := { job with url := ascii "http://h/f", url_ne := by decide }
  have hurl : parseUrl (ascii "http://h/f") = some ⟨ascii "http", ascii "h", ascii "80", ascii "/f"⟩ := by
    decide +kernel
  have hleaves {body : Bytes} (response : Response body) (segment : Segment) (hcode : response.code = 200)
      (hframing : response.framing.delimited = true) (hsegment : segment.bytes = response.render) :
      leftover other fs = body := by
    obtain ⟨n, hstate, hleft⟩ :=
      @stuck_leaves other env fs p hparent hopen _ hurl body response segment hcode hframing hsegment
    have hkeeps := (h other (env.stuck n segment) rfl ⟨rfl, rfl, rfl⟩).unfinished hstate
    rw [← hleft]
    exact (keeps_leftover hnul hkeeps).symm
  have hsmall : leftover other fs = ascii "a" := hleaves smallResponse smallSegment rfl rfl rfl
  have hempty : leftover other fs = [] := hleaves emptyResponse emptySegment rfl rfl rfl
  rw [hempty] at hsmall
  cases hsmall

end Sealed

section Confinement

variable {job : Job} {env : Env} {fs : Fs}

theorem runTask_confined (hdenied : ∀ built, env.mkdirError built ≠ some .eexist) :
    ((0 : UInt8) ∉ job.destPath → (Confined job env fs ↔
        ¬Makes fs env.mkdirError job.destPath (locate fs.cwd job.destPath))) ∧
      ((0 : UInt8) ∈ job.destPath →
        ((∀ job' env', job'.destPath = job.destPath → env.Alike env' → Confined job' env' fs) ↔
          ¬Makes fs env.mkdirError job.destPath (locate fs.cwd job.destPath) ∧ Sealed job env fs)) := by
  refine ⟨confined_plain hdenied, fun hnul => ⟨fun h => ?_, ?_⟩⟩
  · have hno := (h job env rfl ⟨rfl, rfl, rfl⟩).not_makes hdenied
    have hopened := confined_unopened hnul h
    refine ⟨hno, hopened, fun hempty => ?_⟩
    obtain ⟨hstate, counters, code, message, hfs⟩ := unopened_fails hopened
    have hkeeps := (h job env rfl ⟨rfl, rfl, rfl⟩).unfinished (by rw [hstate]; decide)
    rw [hfs, fail, if_pos hempty] at hkeeps
    rw [Job.partPath, locate_part_nul fs.cwd hnul]
    exact (ensureParentDir_keeps hdenied hno).between hkeeps
  · rintro ⟨hno, hsealed⟩ job' env' hdest halike
    have hplace : locate fs.cwd job'.partPath = locate fs.cwd job'.destPath := by
      rw [Job.partPath, hdest, locate_part_nul fs.cwd hnul]
    rw [← halike.mkdirError] at hdenied
    refine ⟨fun _ => ?_, runTask_changes hdenied⟩
    rw [← hplace]
    refine (hsealed.alike hdest halike).keeps hdenied ?_
    rwa [hplace, hdest, halike.mkdirError]

theorem runTask_confined_nested :
    let job : Job := ⟨1, ascii "http://h/f", ascii "d/f", true, by decide, by decide, by decide⟩
    let env : Env := { world := { net := ⟨fun _ => .connected ⟨[], []⟩, fun _ => false⟩ }
                       httpError := some (ascii "away") }
    Confined job env (Fs.lone (ascii "a") []) := by
  intro job env
  refine ((runTask_confined (by simp [env])).1 (by decide)).mpr ?_
  rintro ⟨-, q, hq, hloc, -⟩
  rw [show way job.destPath = ascii "d" ++ [47] by decide +kernel] at hq
  have hle : q.length ≤ (ascii "d").length := front_length (by decide) hq.under
  have hpos := List.length_pos_iff.mpr hq.ne
  have hone : q.length = (ascii "d").length := le_antisymm hle hpos
  obtain ⟨rest, hrest⟩ := hq.under
  have hd : ascii "d" = q := (List.append_inj hrest hone.symm).1
  rw [← hd] at hloc
  exact absurd hloc (by decide)

theorem runTask_makes_dest :
    let job : Job := ⟨1, ascii "http://h/f", ascii "x/../x", true, by decide, by decide, by decide⟩
    let env : Env := { world := { net := ⟨fun _ => .connected ⟨[], []⟩, fun _ => false⟩ }
                       httpError := some (ascii "away") }
    ¬Confined job env (Fs.lone (ascii "a") []) := by
  intro job env h
  have hstate : (runTask job env (Fs.lone (ascii "a") [])).state ≠ .completed := by decide +kernel
  have hnode := (h.unfinished hstate).node
  have hmade : (runTask job env (Fs.lone (ascii "a") [])).fs.node (locate [] job.destPath) = some .dir := by
    decide +kernel
  rw [show (Fs.lone (ascii "a") []).cwd = [] from rfl, hmade] at hnode
  exact absurd hnode (by decide)

end Confinement

end BinderDownload.DownloadService
