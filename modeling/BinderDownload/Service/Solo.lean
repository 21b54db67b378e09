import BinderDownload.Service.Workers

namespace BinderDownload.DownloadService.Workers

open Text Files HttpService

def Goes (jobs : ℕ → Job) (task : ℕ) (s t : Shared) : Prop :=
  ∃ events : List Event, run (step jobs) s (events.map (task, ·)) = some t

variable {jobs : ℕ → Job} {task : ℕ} {s t u : Shared}

theorem Goes.refl (jobs : ℕ → Job) (task : ℕ) (s : Shared) : Goes jobs task s s := ⟨[], rfl⟩

theorem Goes.trans (h : Goes jobs task s t) (h' : Goes jobs task t u) : Goes jobs task s u := by
  obtain ⟨events, hrun⟩ := h
  obtain ⟨more, hrun'⟩ := h'
  refine ⟨events ++ more, ?_⟩
  rw [List.map_append, run_append hrun, hrun']

theorem Goes.one (e : Event) (h : step jobs s (task, e) = some t) : Goes jobs task s t := by
  refine ⟨[e], ?_⟩
  rw [List.map_singleton, run, h]
  rfl

def Reaches (jobs : ℕ → Job) (task : ℕ) (s : Shared) (out : Outcome) : Prop :=
  ∃ t, Goes jobs task s t ∧ t.fs = out.fs ∧ (out.state ≠ .running → (t.worker task).phase = .ended out.state)

theorem Goes.reaches {out : Outcome} (h : Goes jobs task s t) (h' : Reaches jobs task t out) :
    Reaches jobs task s out := by
  obtain ⟨u, hgoes, hu⟩ := h'
  exact ⟨u, h.trans hgoes, hu⟩

theorem finish_reaches {state : State} {out : Outcome} (hp : (s.worker task).phase = .finish state)
    (hfs : s.fs = out.fs) (hstate : out.state = state) : Reaches jobs task s out := by
  refine ⟨s.goto task (.ended state), .one .finish (by simp only [step, hp]), hfs, fun _ => ?_⟩
  rw [goto_phase, hstate]

theorem fail_reaches (env : Env) (counters : Counters) (code : ErrorCode) (message : Bytes)
    (hp : (s.worker task).phase = .checkEmpty) :
    Reaches jobs task s (fail (jobs task) env counters s.fs code message) := by
  by_cases hz : s.fs.fileSize (jobs task).partPath = 0
  · have h1 : Goes jobs task s (s.goto task .unlink) := .one .checkEmpty (by simp only [step, hp, hz, if_true])
    have h2 : Goes jobs task (s.goto task .unlink)
        ({ s.goto task .unlink with fs := s.fs.unlink (jobs task).partPath env.unlinkDenied }.goto task
          (.finish .failed)) :=
      .one (.unlink env.unlinkDenied) (by simp only [step, goto_phase]; rfl)
    refine (h1.trans h2).reaches (finish_reaches (goto_phase _ _ _) ?_ rfl)
    simp only [fail, hz, if_true, goto_fs]
  · have h1 : Goes jobs task s (s.goto task (.finish .failed)) :=
      .one .checkEmpty (by simp only [step, hp, hz, if_false])
    refine h1.reaches (finish_reaches (goto_phase _ _ _) ?_ rfl)
    simp only [fail, hz, if_false, goto_fs]

section Mkdir

variable (denied : Bytes → Option Errno) {dir : Bytes} {pos : ℕ} (hdir : parentDir (jobs task).destPath = some dir)
  (hp : (s.worker task).phase = .parents pos)

include hdir hp

theorem mkdir_refused {built error : Bytes} (hbuilt : built = dir.take ((findFrom 47 pos dir).getD dir.length))
    (hm : makeDir built denied s.fs = .error error) : Goes jobs task s (s.goto task .checkEmpty) := by
  refine .one (.mkdir (denied (cStr built))) ?_
  have hm' : makeDir (dir.take ((findFrom 47 pos dir).getD dir.length)) (fun _ => denied (cStr built)) s.fs =
      .error error := by
    rw [← hbuilt]
    exact hm
  simp only [step, hp, mkdirStep, hdir, Option.map_some, hm']

theorem mkdir_made {built : Bytes} {fs : Fs} (hbuilt : built = dir.take ((findFrom 47 pos dir).getD dir.length))
    (hm : makeDir built denied s.fs = .ok fs) :
    Goes jobs task s ({ s with fs }.goto task (match findFrom 47 pos dir with
      | none => .measure
      | some next => .parents (next + 1))) := by
  refine .one (.mkdir (denied (cStr built))) ?_
  have hm' : makeDir (dir.take ((findFrom 47 pos dir).getD dir.length)) (fun _ => denied (cStr built)) s.fs =
      .ok fs := by
    rw [← hbuilt]
    exact hm
  cases hnext : findFrom 47 pos dir with
  | none =>
    rw [hnext] at hm'
    simp only [step, hp, mkdirStep, hdir, hnext, Option.map_some, hm']
  | some next =>
    rw [hnext] at hm'
    simp only [step, hp, mkdirStep, hdir, hnext, Option.map_some, hm']

theorem makeDirs_goes : ∃ t, Goes jobs task s t ∧ t.fs = (makeDirs dir denied pos s.fs).2 ∧
    (t.worker task).phase = if (makeDirs dir denied pos s.fs).1 = none then .measure else .checkEmpty := by
  generalize hfs : s.fs = fs
  fun_induction makeDirs dir denied pos fs generalizing s with
  | case1 pos fs h error he =>
    refine ⟨_, mkdir_refused denied hdir hp (by simp [h]) (hfs ▸ he), hfs, ?_⟩
    simp
  | case2 pos fs h fs' he =>
    refine ⟨_, mkdir_made denied hdir hp (by simp [h]) (hfs ▸ he), rfl, ?_⟩
    simp [h]
  | case3 pos fs next h error he =>
    refine ⟨_, mkdir_refused denied hdir hp (by simp [h]) (hfs ▸ he), hfs, ?_⟩
    simp
  | case4 pos fs next h fs' he ih =>
    have hmade := mkdir_made denied hdir hp (by simp [h]) (hfs ▸ he)
    obtain ⟨t, hgoes, ht⟩ := ih (s := { s with fs := fs' }.goto task (.parents (next + 1))) (goto_phase _ _ _) rfl
    simp only [h] at hmade
    exact ⟨t, hmade.trans hgoes, ht⟩

end Mkdir

theorem ensureParentDir_goes (denied : Bytes → Option Errno) (hp : (s.worker task).phase = .pending) :
    ∃ t, Goes jobs task s t ∧ t.fs = (ensureParentDir (jobs task).destPath denied s.fs).2 ∧
      (t.worker task).phase =
        if (ensureParentDir (jobs task).destPath denied s.fs).1 = none then .measure else .checkEmpty := by
  have hstart : Goes jobs task s
      (s.goto task (if (parentDir (jobs task).destPath).isSome then .parents 0 else .measure)) :=
    .one .start (by simp only [step, hp])
  have hdir : parentDir (jobs task).destPath = none ∧
        ensureParentDir (jobs task).destPath denied s.fs = (none, s.fs) ∨
      ∃ dir, parentDir (jobs task).destPath = some dir ∧
        ensureParentDir (jobs task).destPath denied s.fs = makeDirs dir denied 0 s.fs := by
    unfold parentDir ensureParentDir
    split <;> simp_all
  rcases hdir with ⟨hnone, hsame⟩ | ⟨dir, hsome, hmake⟩
  · rw [hnone] at hstart
    refine ⟨_, hstart, ?_, ?_⟩
    · rw [hsame]
      rfl
    · rw [hsame]
      simp
  · rw [hsome] at hstart
    obtain ⟨t, hgoes, ht⟩ := makeDirs_goes denied hsome (goto_phase s task (.parents 0))
    rw [hmake]
    exact ⟨t, hstart.trans hgoes, ht⟩

def Phase.fetching : Phase → Prop
  | .respond _ => True
  | .body _ _ unwritten => unwritten = []
  | _ => False

theorem abort_goes (hp : (s.worker task).phase.fetching) (canceled : Bool) :
    Goes jobs task s (s.goto task (if canceled then .finish .canceled else .checkEmpty)) := by
  refine .one (.abort canceled) ?_
  cases hphase : (s.worker task).phase with
  | respond ino => simp only [step, hphase]
  | body ino pos unwritten => simp only [step, hphase]
  | _ =>
    rw [hphase] at hp
    exact hp.elim

theorem cancelDone_reaches (hp : (s.worker task).phase.fetching) (counters : Counters) :
    Reaches jobs task s (cancelDone (jobs task) counters s.fs) :=
  (abort_goes hp true).reaches (finish_reaches (goto_phase _ _ _) rfl rfl)

theorem abort_reaches (hp : (s.worker task).phase.fetching) (env : Env) (counters : Counters) (code : ErrorCode)
    (message : Bytes) : Reaches jobs task s (fail (jobs task) env counters s.fs code message) :=
  (abort_goes hp false).reaches (fail_reaches env counters code message (goto_phase _ _ _))

theorem complete_reaches (hp : (s.worker task).phase = .rename) (env : Env) (counters : Counters) (written : ℕ) :
    Reaches jobs task s (complete (jobs task) env counters written s.fs) := by
  have hstep : Goes jobs task s (renameStep (jobs task) task env.renameError s) :=
    .one (.rename env.renameError) (by simp only [step, hp])
  unfold renameStep at hstep
  unfold complete
  cases hr : s.fs.rename (jobs task).partPath (jobs task).destPath env.renameError with
  | error e =>
    simp only [hr] at hstep
    exact hstep.reaches (fail_reaches env _ _ _ (goto_phase _ _ _))
  | ok fs =>
    simp only [hr] at hstep
    refine hstep.reaches (finish_reaches ?_ rfl rfl)
    simp [Shared.setWorker]

theorem settle_reaches {status : Option Status} (hp : (s.worker task).phase.fetching)
    (hok : ∀ n, status = some (.ok n) → ∃ ino pos, (s.worker task).phase = .body ino pos []) (env : Env)
    (counters : Counters) : Reaches jobs task s (settle (jobs task) env counters s.fs status) := by
  cases status with
  | none => exact ⟨s, .refl jobs task s, rfl, fun h => absurd rfl h⟩
  | some status =>
    cases status with
    | failure code message =>
      simp only [settle]
      split_ifs
      · exact cancelDone_reaches hp counters
      · exact abort_reaches hp env counters _ message
    | ok written =>
      obtain ⟨ino, pos, hbody⟩ := hok written rfl
      have hgoes : Goes jobs task s (s.goto task .rename) := .one .succeed (by simp only [step, hbody])
      exact hgoes.reaches (complete_reaches (goto_phase _ _ _) env counters written)

theorem setData_self (fs : Fs) (ino : ℕ) : fs.setData ino (fs.data ino) = fs := by
  simp [Fs.setData]

theorem setData_twice (fs : Fs) (ino : ℕ) (as bs : Bytes) : (fs.setData ino as).setData ino bs = fs.setData ino bs := by
  simp [Fs.setData]

theorem body_goes {ino pos : ℕ} (hp : (s.worker task).phase = .body ino pos []) (bs : Bytes) :
    ∃ t, Goes jobs task s t ∧ t.fs = s.fs.setData ino (overlay 0 (s.fs.data ino) pos bs) ∧
      ∃ pos', (t.worker task).phase = .body ino pos' [] := by
  cases bs with
  | nil => exact ⟨s, .refl jobs task s, (setData_self s.fs ino).symm, pos, hp⟩
  | cons b bs =>
    generalize hu : s.setWorker task { s.worker task with
      phase := .body ino pos (b :: bs), received := (s.worker task).received ++ b :: bs } = u
    have hphase : (u.worker task).phase = .body ino pos (b :: bs) := by
      simp [← hu, Shared.setWorker]
    have hreceive : Goes jobs task s u := .one (.onBody (b :: bs)) (by simp only [step, hp, hu])
    have hwrite : Goes jobs task u (u.setCell ino ((u.cell ino).write task pos (b :: bs)) |>.goto task
        (.body ino (pos + (b :: bs).length) [])) := by
      refine .one (.write ⟨(b :: bs).length, Nat.succ_pos _⟩) ?_
      simp only [step, hphase, PNat.mk_coe, List.take_length, List.drop_length]
    refine ⟨_, hreceive.trans hwrite, ?_, _, goto_phase _ _ _⟩
    rw [← hu]
    rfl

theorem headers_goes {ino : ℕ} (start : ℕ) (hp : (s.worker task).phase = .respond ino) :
    ∃ t, Goes jobs task s t ∧ (t.worker task).phase = .body ino start [] ∧
      t.fs = s.fs.setData ino (landing (s.fs.data ino) (s.worker task).resumeFrom start) := by
  have hheaders : Goes jobs task s (headersStep task ino start s) := .one (.onHeaders start) (by simp only [step, hp])
  unfold headersStep landing at *
  norm_cast
  by_cases hdrop : start = 0 ∧ 0 < (s.worker task).resumeFrom
  · simp only [hdrop, and_self, if_true] at hheaders ⊢
    generalize hu : s.setWorker task { s.worker task with phase := .truncate ino, startOffset := 0, received := [] } = u
      at hheaders
    have hphase : (u.worker task).phase = .truncate ino := by
      simp [← hu, Shared.setWorker]
    have htruncate : Goes jobs task u (u.setCell ino .empty |>.goto task (.body ino 0 [])) :=
      .one .ftruncate (by simp only [step, hphase])
    refine ⟨_, hheaders.trans htruncate, goto_phase _ _ _, ?_⟩
    rw [← hu]
    rfl
  · simp only [hdrop, if_false] at hheaders ⊢
    refine ⟨_, hheaders, by simp [Shared.setWorker], ?_⟩
    rw [setData_self]
    rfl

theorem fetchToFd_goes (world : World) {ino : ℕ} (hp : (s.worker task).phase = .handOver ino) :
    ∃ t, Goes jobs task s t ∧ (t.worker task).phase.fetching ∧
      t.fs = s.fs.setData ino
        (fetchToFd (jobs task).url (s.worker task).resumeFrom true world (s.fs.data ino)).bytes ∧
      ∀ n, (fetchToFd (jobs task).url (s.worker task).resumeFrom true world (s.fs.data ino)).status = some (.ok n) →
        ∃ ino pos, (t.worker task).phase = .body ino pos [] := by
  have hcall : Goes jobs task s (s.goto task (.respond ino)) := .one .fetchToFd (by simp only [step, hp])
  rcases fetchToFd_spec (jobs task).url (s.worker task).resumeFrom true world (s.fs.data ino) with
    ⟨hsame, hfail⟩ | ⟨info, taken, -, hstart, -, hbytes, -⟩
  · refine ⟨_, hcall, ?_, ?_, fun n h => absurd h (hfail n)⟩
    · rw [goto_phase]
      trivial
    · rw [hsame, setData_self]
      rfl
  · obtain ⟨start, hstart⟩ := Int.eq_ofNat_of_zero_le hstart
    obtain ⟨t, hheaders, hbody, htfs⟩ := headers_goes start (goto_phase s task (.respond ino))
    obtain ⟨u, hwrite, hufs, pos, hphase⟩ := body_goes hbody taken
    refine ⟨u, (hcall.trans hheaders).trans hwrite, ?_, ?_, fun _ _ => ⟨ino, pos, hphase⟩⟩
    · rw [hphase]
      rfl
    · rw [hufs, htfs, hbytes, setData_twice, hstart]
      simp [Fs.setData, Shared.goto, Shared.setWorker]

theorem transfer_reaches (env : Env) {ino : ℕ} (hp : (s.worker task).phase = .handOver ino) :
    Reaches jobs task s (transfer (jobs task) env (s.worker task).resumeFrom ino s.fs) := by
  obtain ⟨t, hgoes, hfetching, hfs, hok⟩ := fetchToFd_goes env.world hp
  unfold transfer
  generalize fetchToFd (jobs task).url (s.worker task).resumeFrom true env.world (s.fs.data ino) = fetched at *
  refine hgoes.reaches ?_
  dsimp only
  rw [← hfs]
  -- the late messages change neither the state nor the files
  generalize (Counters.relayAll (jobs task) env.sinceMs 0 _ _).1 = counters
  cases env.transportError with
  | none => exact settle_reaches hfetching hok env counters
  | some text =>
    dsimp only
    split_ifs
    · exact cancelDone_reaches hfetching counters
    · exact abort_reaches hfetching env counters .httpService (ascii "fetchToFd transaction failed: " ++ text)

theorem openPart_goes (hp : (s.worker task).phase = .measure) (denied : Option Errno) :
    match s.fs.openWrite (jobs task).partPath denied with
    | .error _ => ∃ t, Goes jobs task s t ∧ (t.worker task).phase = .checkEmpty ∧ t.fs = s.fs
    | .ok (ino, fs) => ∃ t, Goes jobs task s t ∧ (t.worker task).phase = .handOver ino ∧ t.fs = fs ∧
        (t.worker task).resumeFrom = s.fs.fileSize (jobs task).partPath := by
  generalize hu : s.setWorker task { s.worker task with
    phase := .openPart, found := s.cellAt (jobs task).partPath, resumeFrom := s.fs.fileSize (jobs task).partPath } = u
  have hmeasure : Goes jobs task s u := .one .measure (by simp only [step, hp, hu])
  have hphase : (u.worker task).phase = .openPart := by
    simp [← hu, Shared.setWorker]
  have hfs : u.fs = s.fs := by
    rw [← hu]
    rfl
  have hopen : Goes jobs task u (openStep (jobs task) task denied u) :=
    .one (.openPart denied) (by simp only [step, hphase])
  unfold openStep at hopen
  rw [hfs] at hopen
  split
  · rename_i e he
    simp only [he] at hopen
    exact ⟨_, hmeasure.trans hopen, goto_phase _ _ _, hfs⟩
  · rename_i ino fs ho
    simp only [ho] at hopen
    refine ⟨_, hmeasure.trans hopen, goto_phase _ _ _, rfl, ?_⟩
    simp [← hu, Shared.goto, Shared.setWorker]

theorem handOver_reaches (env : Env) (counters : Counters) {ino : ℕ} (hp : (s.worker task).phase = .handOver ino) :
    Reaches jobs task s (match env.httpError with
      | some error => fail (jobs task) env counters s.fs .httpService error
      | none =>
        match env.requestIdError with
        | some error => fail (jobs task) env counters s.fs .httpService (ascii "newRequestId failed: " ++ error)
        | none =>
          if env.canceledBefore then cancelDone (jobs task) counters s.fs
          else match env.dupError with
            | some e => fail (jobs task) env counters s.fs .io (ascii "dup failed: " ++ strerror e)
            | none => transfer (jobs task) env (s.worker task).resumeFrom ino s.fs) := by
  have hrefuse : Goes jobs task s (s.goto task .checkEmpty) := .one .refuse (by simp only [step, hp])
  have hskip : Goes jobs task s (s.goto task (.finish .canceled)) := .one .skip (by simp only [step, hp])
  have hfail (code : ErrorCode) (message : Bytes) :
      Reaches jobs task s (fail (jobs task) env counters s.fs code message) :=
    hrefuse.reaches (fail_reaches env counters code message (goto_phase _ _ _))
  cases env.httpError with
  | some error => exact hfail _ _
  | none =>
    cases env.requestIdError with
    | some error => exact hfail _ _
    | none =>
      dsimp only
      split_ifs
      · exact hskip.reaches (finish_reaches (goto_phase _ _ _) rfl rfl)
      · cases env.dupError with
        | some e => exact hfail _ _
        | none => exact transfer_reaches env hp

theorem runTask_reaches (env : Env) (hp : (s.worker task).phase = .pending) :
    Reaches jobs task s (runTask (jobs task) env s.fs) := by
  obtain ⟨t, hgoes, hfs, hphase⟩ := ensureParentDir_goes env.mkdirError hp
  refine hgoes.reaches ?_
  unfold runTask
  rcases hparent : ensureParentDir (jobs task).destPath env.mkdirError s.fs with ⟨_ | error, fs⟩
  · rw [hparent] at hfs hphase
    obtain rfl : t.fs = fs := hfs
    have hopen := @openPart_goes jobs task t hphase env.openError
    dsimp only
    cases ho : t.fs.openWrite (jobs task).partPath env.openError with
    | error e =>
      rw [ho] at hopen
      obtain ⟨u, hmove, hcheck, hfs⟩ := hopen
      rw [← hfs]
      exact hmove.reaches (fail_reaches env _ _ _ hcheck)
    | ok p =>
      obtain ⟨ino, fs'⟩ := p
      rw [ho] at hopen
      obtain ⟨u, hmove, hhand, rfl, hresume⟩ := hopen
      rw [← hresume]
      exact hmove.reaches (handOver_reaches env _ hhand)
  · rw [hparent] at hfs hphase
    obtain rfl : t.fs = fs := hfs
    exact fail_reaches env {} _ _ hphase

end BinderDownload.DownloadService.Workers
