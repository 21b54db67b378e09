import BinderDownload.Service.Site

namespace BinderDownload.DownloadService.Tasks

open Text Files HttpService

inductive Stage
  | unopened | measured | opened | sending
  | replied (status : Status)
  | onDisk (totalOnDisk : ℤ)
  | moving | moved
  | sized (finalSize : ℤ)
  | complete | other

def WorkerAt.stage : WorkerAt → Stage
  | .start | .parents | .measure => .unopened
  | .setDownloaded | .setResumedFrom | .openPart => .measured
  | .httpService | .newRequestId | .publish _ | .check | .dup | .fetchToFd => .opened
  | .reply => .sending
  | .judge (.status status) => .replied status
  | .load written => .replied (.ok written)
  | .setOnDisk totalOnDisk => .onDisk totalOnDisk
  | .rename => .moving
  | .size => .moved
  | .setTotal finalSize _ => .sized finalSize
  | .message (.completed _ _) | .store (.completed _ _) | .callback (.completed _ _) | .done (.completed _ _) =>
    .complete
  | _ => .other

def Site.Holds (s : Site) (bytes : Bytes) : Prop :=
  s.fs.node (locate s.fs.cwd s.task.job.partPath) = some (.file s.ino) ∧ s.fs.data s.ino = bytes

def Site.Sending (s : Site) (sent : List Progress) : Prop :=
  s.task.inFlight ++ s.unsent = sent ∨
    ∃ code startOffset totalBytes contentType rest,
      sent = .responseStart code startOffset totalBytes contentType :: rest ∧
      s.task.counters.resumedFrom = startOffset ∧ ∀ m ∈ s.task.inFlight ++ s.unsent, m ∈ rest

def Placed (fetched : Fetched) (written : ℕ) : Prop :=
  ∃ code startOffset totalBytes contentType rest,
    fetched.sent = .responseStart code startOffset totalBytes contentType :: rest ∧
    (∀ m ∈ rest, ∃ received total, m = .bytesReceived received total) ∧
    (fetched.bytes.length : ℤ) = startOffset + written

/-- What is known of the files and of the counters at each stage, when the transfer comes out as `fetched`. -/
def Site.Known (old : Bytes) (fetched : Fetched) (s : Site) : Prop :=
  let size : ℤ := fetched.bytes.length
  let unheard := s.task.relay = .idle ∧ s.task.inFlight = []
  match s.task.worker.stage with
  | .unopened => unheard ∧ leftover s.task.job s.fs = old
  | .measured =>
    unheard ∧ leftover s.task.job s.fs = old ∧ s.task.resumeFrom = s.fs.fileSize s.task.job.partPath
  | .opened => unheard ∧ s.Holds old ∧ s.task.resumeFrom = old.length
  | .sending =>
    s.Holds fetched.bytes ∧ s.status = fetched.status ∧
      ∀ written, fetched.status = some (.ok written) → s.Sending fetched.sent
  | .replied status =>
    s.Holds fetched.bytes ∧ fetched.status = some status ∧ s.unsent = [] ∧
      ∀ written, status = .ok written → s.Sending fetched.sent
  | .onDisk totalOnDisk => s.Holds fetched.bytes ∧ totalOnDisk = size ∧ s.task.Settles size
  | .moving => s.Holds fetched.bytes ∧ s.task.counters.downloaded = size ∧ s.task.Settles size
  | .moved => s.fs.fileSize s.task.job.destPath = size ∧ s.task.counters.downloaded = size ∧ s.task.Settles size
  | .sized finalSize =>
    s.fs.fileSize s.task.job.destPath = size ∧ s.task.counters.downloaded = size ∧ s.task.Settles size ∧
      finalSize = size
  | .complete =>
    s.fs.fileSize s.task.job.destPath = size ∧ s.task.counters.downloaded = size ∧ s.task.Settles size ∧
      s.task.counters.total = size
  | .other => True

def WorkerAt.loads : WorkerAt → Option ℕ
  | .load written => some written
  | _ => none

/-- When the worker computes the size on disk, all that the relay has still to store is that size. -/
def Site.Timely (s : Site) : Move → Prop
  | .go => ∀ written ∈ s.task.worker.loads, s.task.Settles (s.task.counters.resumedFrom + written)
  | _ => True

instance (s : Site) : ∀ move, Decidable (s.Timely move)
  | .go => inferInstanceAs (Decidable (∀ written ∈ s.task.worker.loads, _))
  | .parents _ | .measure | .openPart _ | .httpService _ | .newRequestId _ | .dup _ | .fetchToFd | .send | .reply
  | .lose _ | .rename _ | .size _ | .discard _ | .relay _ | .cancel => isTrue trivial

section Known

variable {d' : Task} {s t : Site} {old : Bytes} {fetched : Fetched} {world : World}

theorem Site.Sending.receive {written : ℕ} (h : s.Sending fetched.sent) (hplaced : Placed fetched written)
    (hstep : s.task.receive = some d') : { s with task := d' }.Sending fetched.sent := by
  obtain ⟨code, startOffset, totalBytes, contentType, rest, hsent, hrest, -⟩ := hplaced
  right
  refine ⟨code, startOffset, totalBytes, contentType, rest, hsent, ?_⟩
  unfold Task.receive at hstep
  split at hstep
  · cases hstep
  · rename_i code' startOffset' totalBytes' contentType' more hflight
    cases hstep
    rcases h with h | ⟨_, _, _, _, _, hsent', -, hmem⟩
    · rw [hflight, hsent] at h
      cases h
      exact ⟨rfl, fun m hm => hm⟩
    · obtain ⟨received, total, hm⟩ := hrest _ (by
        rw [hsent] at hsent'
        cases hsent'
        exact hmem _ (by rw [hflight]; exact List.mem_cons_self))
      cases hm
  · rename_i received total more hflight
    cases hstep
    rcases h with h | ⟨_, _, _, _, _, hsent', hfrom, hmem⟩
    · rw [hflight, hsent] at h
      cases h
    · rw [hsent] at hsent'
      cases hsent'
      refine ⟨hfrom, fun m hm => hmem m ?_⟩
      rw [hflight]
      exact List.mem_cons_of_mem _ hm

theorem Site.Sending.relayStep {written : ℕ} (h : s.Sending fetched.sent) (hplaced : Placed fetched written)
    {sinceMs : ℤ} (hstep : s.task.relayStep sinceMs = some d') : { s with task := d' }.Sending fetched.sent := by
  rcases relayStep_receive hstep with ⟨-, hreceive⟩ | ⟨hflight, hfrom⟩
  · exact h.receive hplaced hreceive
  · unfold Site.Sending at h ⊢
    rw [hflight, hfrom]
    exact h

theorem Site.Known.relay (h : s.Known old fetched)
    (hplaced : ∀ written, fetched.status = some (.ok written) → Placed fetched written) {sinceMs : ℤ}
    (hstep : s.task.relayStep sinceMs = some d') : { s with task := d' }.Known old fetched := by
  obtain ⟨hjob, hworker, hresume⟩ := relayStep_worker hstep
  have hquiet (hidle : s.task.relay = .idle) (hflight : s.task.inFlight = []) : False := by
    rw [Task.relayStep, hidle] at hstep
    simp [Task.receive, hflight] at hstep
  have hholds {bytes : Bytes} (h : s.Holds bytes) : { s with task := d' }.Holds bytes := by
    refine ⟨?_, h.2⟩
    rw [hjob]
    exact h.1
  unfold Site.Known at h ⊢
  dsimp only at h ⊢
  rw [hworker, hjob]
  cases hstage : s.task.worker.stage with
  | unopened | measured | opened =>
    rw [hstage] at h
    exact absurd (hquiet h.1.1 h.1.2) id
  | sending =>
    rw [hstage] at h
    obtain ⟨hfile, hstatus, hsending⟩ := h
    exact ⟨hholds hfile, hstatus, fun written hw => (hsending written hw).relayStep (hplaced written hw) hstep⟩
  | replied status =>
    rw [hstage] at h
    obtain ⟨hfile, hstatus, hunsent, hsending⟩ := h
    refine ⟨hholds hfile, hstatus, hunsent, fun written hw => ?_⟩
    exact (hsending written hw).relayStep (hplaced written (by rw [hstatus, hw])) hstep
  | onDisk totalOnDisk =>
    rw [hstage] at h
    obtain ⟨hfile, hvalue, hsettles⟩ := h
    exact ⟨hholds hfile, hvalue, (hsettles.relayStep hstep).settles⟩
  | moving =>
    rw [hstage] at h
    obtain ⟨hfile, hdownloaded, hsettles⟩ := h
    have hkeeps := hsettles.relayStep hstep
    exact ⟨hholds hfile, hkeeps.downloaded hdownloaded, hkeeps.settles⟩
  | moved =>
    rw [hstage] at h
    obtain ⟨hsize, hdownloaded, hsettles⟩ := h
    have hkeeps := hsettles.relayStep hstep
    exact ⟨hsize, hkeeps.downloaded hdownloaded, hkeeps.settles⟩
  | sized finalSize =>
    rw [hstage] at h
    obtain ⟨hsize, hdownloaded, hsettles, hfinal⟩ := h
    have hkeeps := hsettles.relayStep hstep
    exact ⟨hsize, hkeeps.downloaded hdownloaded, hkeeps.settles, hfinal⟩
  | complete =>
    rw [hstage] at h
    obtain ⟨hsize, hdownloaded, hsettles, htotal⟩ := h
    have hkeeps := hsettles.relayStep hstep
    exact ⟨hsize, hkeeps.downloaded hdownloaded, hkeeps.settles, hkeeps.total htotal⟩
  | other => trivial

theorem Site.Known.other (h : t.task.worker.stage = .other) : t.Known old fetched := by
  unfold Site.Known
  dsimp only
  rw [h]
  trivial

theorem advance_some {event : Event} (h : s.advance event = some t) :
    ∃ d', s.task.step event = some d' ∧ t = { s with task := d' } := by
  obtain ⟨d', hd', rfl⟩ := Option.map_eq_some_iff.mp h
  exact ⟨d', hd', rfl⟩

def Event.place : Event → Option WorkerAt
  | .parents _ => some .parents
  | .measure _ => some .measure
  | .openPart _ => some .openPart
  | .httpService _ => some .httpService
  | .newRequestId _ => some .newRequestId
  | .dup _ => some .dup
  | .reply _ => some .reply
  | .rename _ => some .rename
  | .size _ _ => some .size
  | .go | .send _ | .relay _ => none

theorem workerStep_place {d d' : Task} {event : Event} {at' : WorkerAt} (h : d.workerStep event = some d')
    (hplace : event.place = some at') : d.worker = at' := by
  unfold Task.workerStep at h
  split at h
  all_goals cases h
  all_goals cases hplace
  all_goals assumption

theorem Site.Known.parents (h : s.Known old fetched) {denied : Bytes → Option Errno}
    (hstep : s.step world (.parents denied) = some t) : t.Known old fetched := by
  obtain ⟨d', hd', rfl⟩ := advance_some hstep
  have hw : s.task.worker = .parents := workerStep_place hd' rfl
  cases herror : (ensureParentDir s.task.job.destPath denied s.fs).1 with
  | some error =>
    unfold Task.step Task.workerStep at hd'
    rw [hw, herror] at hd'
    cases hd'
    exact .other rfl
  | none =>
    unfold Task.step Task.workerStep at hd'
    rw [hw, herror] at hd'
    cases hd'
    have hsame := leftover_sameFiles s.task.job (ensureParentDir_sameFiles s.task.job.destPath denied s.fs)
    unfold Site.Known at h
    rw [hw] at h
    exact ⟨h.1, hsame.trans h.2⟩

theorem Site.Known.measure (h : s.Known old fetched) (hstep : s.step world .measure = some t) :
    t.Known old fetched := by
  obtain ⟨d', hd', rfl⟩ := advance_some hstep
  have hw : s.task.worker = .measure := workerStep_place hd' rfl
  unfold Task.step Task.workerStep at hd'
  rw [hw] at hd'
  cases hd'
  unfold Site.Known at h
  rw [hw] at h
  exact ⟨h.1, h.2, rfl⟩

theorem Site.Known.openPart (h : s.Known old fetched) {denied : Option Errno}
    (hstep : s.openPart denied = some t) : t.Known old fetched := by
  unfold Site.openPart at hstep
  cases hopen : s.fs.openWrite s.task.job.partPath denied with
  | error e =>
    rw [hopen] at hstep
    obtain ⟨d', hd', rfl⟩ := advance_some hstep
    have hw : s.task.worker = .openPart := workerStep_place hd' rfl
    unfold Task.step Task.workerStep at hd'
    rw [hw] at hd'
    cases hd'
    exact .other rfl
  | ok p =>
    obtain ⟨ino, fs⟩ := p
    rw [hopen] at hstep
    obtain ⟨d', hd', rfl⟩ := advance_some hstep
    have hw : s.task.worker = .openPart := workerStep_place hd' rfl
    unfold Task.step Task.workerStep at hd'
    rw [hw] at hd'
    cases hd'
    unfold Site.Known at h
    rw [hw] at h
    obtain ⟨hunheard, hold, hresume⟩ := h
    have hopened := openWrite_opened hopen
    refine ⟨hunheard, ⟨?_, hopened.data.trans hold⟩, ?_⟩
    · show fs.node (locate fs.cwd s.task.job.partPath) = some (.file ino)
      rw [hopened.cwd]
      exact hopened.file
    · exact hresume.trans (hopened.size.trans (by rw [hold]))

theorem Site.Known.same (h : s.Known old fetched) {d' : Task} (at' : WorkerAt) (state : State) (message : Bytes)
    (httpRequestId : ℤ) (canceled : Bool) (calls : List ClientCall)
    (hd' : d' = { s.task with worker := at', state, message, httpRequestId, canceled, calls })
    (hstage : at'.stage = s.task.worker.stage) : { s with task := d' }.Known old fetched := by
  subst hd'
  unfold Site.Known at h ⊢
  dsimp only at h ⊢
  rw [hstage]
  exact h

theorem Site.Known.prepare (h : s.Known old fetched) {event : Event} {at' : WorkerAt} (hplace : event.place = some at')
    (hstage : at'.stage = .opened) (hstep : s.advance event = some t) : t.Known old fetched := by
  obtain ⟨d', hd', rfl⟩ := advance_some hstep
  cases event with
  | httpService answer | newRequestId answer | dup answer =>
    have hw := workerStep_place hd' hplace
    cases hplace
    cases answer
    all_goals
      unfold Task.step Task.workerStep at hd'
      rw [hw] at hd'
      cases hd'
      first
      | exact h.same _ _ _ _ _ _ rfl (by rw [hw]; rfl)
      | exact .other rfl
  | _ =>
    cases hplace
    all_goals cases hstage

theorem Site.Known.fetch (h : s.Known old fetched)
    (hfetched : fetchToFd s.task.job.url old.length true world old = fetched) (hw : s.task.worker = .fetchToFd)
    (hstep : s.fetch world = some t) : t.Known old fetched := by
  obtain ⟨d', hd', rfl⟩ := advance_some hstep
  unfold Task.step Task.workerStep at hd'
  rw [hw] at hd'
  cases hd'
  unfold Site.Known at h
  rw [hw] at h
  obtain ⟨⟨hidle, hflight⟩, hholds, hresume⟩ := h
  rw [hresume, hholds.2, hfetched]
  refine ⟨⟨hholds.1, Function.update_self _ _ _⟩, rfl, fun written hok => .inl ?_⟩
  show s.task.inFlight ++ fetched.sent = fetched.sent
  rw [hflight, List.nil_append]

theorem Site.Known.send (h : s.Known old fetched) (hstep : s.step world .send = some t) : t.Known old fetched := by
  simp only [Site.step] at hstep
  cases hunsent : s.unsent with
  | nil =>
    rw [hunsent] at hstep
    cases hstep
  | cons message unsent =>
    rw [hunsent] at hstep
    obtain ⟨d', hd', rfl⟩ := advance_some hstep
    simp only [Task.step] at hd'
    split_ifs at hd' with hw
    cases hd'
    unfold Site.Known at h ⊢
    simp only [hw, WorkerAt.stage] at h ⊢
    obtain ⟨hholds, hstatus, hsending⟩ := h
    refine ⟨hholds, hstatus, fun written hok => ?_⟩
    have hsame : (s.task.inFlight ++ [message]) ++ unsent = s.task.inFlight ++ s.unsent := by
      rw [hunsent, List.append_assoc, List.singleton_append]
    have h := hsending written hok
    unfold Site.Sending at h ⊢
    rw [← hsame] at h
    exact h

theorem Site.Known.reply (h : s.Known old fetched) (hstep : s.step world .reply = some t) : t.Known old fetched := by
  simp only [Site.step] at hstep
  split_ifs at hstep with hunsent
  obtain ⟨status, hstatus, hstep⟩ := Option.bind_eq_some_iff.mp hstep
  obtain ⟨d', hd', rfl⟩ := advance_some hstep
  have hw : s.task.worker = .reply := workerStep_place hd' rfl
  unfold Task.step Task.workerStep at hd'
  rw [hw] at hd'
  cases hd'
  unfold Site.Known at h
  rw [hw] at h
  obtain ⟨hholds, hreply, hsending⟩ := h
  refine ⟨hholds, hreply.symm.trans hstatus, hunsent, fun written hok => ?_⟩
  exact hsending written (by rw [← hreply, hstatus, hok])

theorem Site.Known.rename (h : s.Known old fetched) {denied : Option Errno}
    (hstep : s.rename denied = some t) : t.Known old fetched := by
  unfold Site.rename at hstep
  cases hrename : s.fs.rename s.task.job.partPath s.task.job.destPath denied with
  | error e =>
    rw [hrename] at hstep
    obtain ⟨d', hd', rfl⟩ := advance_some hstep
    have hw : s.task.worker = .rename := workerStep_place hd' rfl
    unfold Task.step Task.workerStep at hd'
    rw [hw] at hd'
    cases hd'
    exact .other rfl
  | ok fs =>
    rw [hrename] at hstep
    obtain ⟨d', hd', rfl⟩ := advance_some hstep
    have hw : s.task.worker = .rename := workerStep_place hd' rfl
    unfold Task.step Task.workerStep at hd'
    rw [hw] at hd'
    cases hd'
    unfold Site.Known at h
    rw [hw] at h
    obtain ⟨hholds, hdownloaded, hsettles⟩ := h
    refine ⟨?_, hdownloaded, hsettles⟩
    have hfile : ((fs.content s.task.job.destPath).getD []).length = fetched.bytes.length := by
      rw [Fs.rename_content hholds.1 hrename, Fs.content_file (Fs.rename_ne hrename).1 hholds.1, hholds.2]
      rfl
    show (fs.fileSize s.task.job.destPath : ℤ) = fetched.bytes.length
    rw [Fs.fileSize_resolved (Fs.rename_resolve hholds.1 hrename), hfile]

theorem Site.Known.size (h : s.Known old fetched) {elapsed : ℤ}
    (hstep : s.step world (.size elapsed) = some t) : t.Known old fetched := by
  obtain ⟨d', hd', rfl⟩ := advance_some hstep
  have hw : s.task.worker = .size := workerStep_place hd' rfl
  unfold Task.step Task.workerStep at hd'
  rw [hw] at hd'
  cases hd'
  unfold Site.Known at h
  rw [hw] at h
  obtain ⟨hsize, hdownloaded, hsettles⟩ := h
  exact ⟨hsize, hdownloaded, hsettles, hsize⟩

theorem Site.Known.judge (h : s.Known old fetched) {reply : Reply} (hw : s.task.worker = .judge reply) :
    { s with task := s.task.goto (s.task.judge reply) }.Known old fetched := by
  cases reply with
  | lost text =>
    refine .other ?_
    simp only [Task.goto, Task.judge]
    split_ifs <;> rfl
  | status status =>
    cases status with
    | failure code message =>
      refine .other ?_
      simp only [Task.goto, Task.judge]
      split_ifs <;> rfl
    | ok written => exact h.same _ _ _ _ _ _ rfl (by rw [hw]; rfl)

theorem Site.Known.load (h : s.Known old fetched)
    (hplaced : ∀ written, fetched.status = some (.ok written) → Placed fetched written) {written : ℕ}
    (hw : s.task.worker = .load written) (hsettles : s.task.Settles (s.task.counters.resumedFrom + written)) :
    { s with task := s.task.goto (.setOnDisk (s.task.counters.resumedFrom + written)) }.Known old fetched := by
  unfold Site.Known at h
  rw [hw] at h
  obtain ⟨hholds, hstatus, hunsent, hsending⟩ := h
  obtain ⟨code, startOffset, totalBytes, contentType, rest, hsent, -, hsize⟩ := hplaced written hstatus
  have hfrom : s.task.counters.resumedFrom = startOffset := by
    rcases hsending written rfl with h | ⟨_, _, _, _, _, hsent', hfrom, -⟩
    · -- the start of the response is still in flight, but it says nothing new
      rw [hunsent, List.append_nil, hsent] at h
      have hstart : settles _ _ (.responseStart code startOffset totalBytes contentType) :=
        hsettles.2 _ (by rw [h]; exact List.mem_cons_self)
      exact hstart.1.symm
    · rw [hsent] at hsent'
      cases hsent'
      exact hfrom
  have hvalue : s.task.counters.resumedFrom + written = fetched.bytes.length := by rw [hfrom, hsize]
  rw [hvalue] at hsettles ⊢
  exact ⟨hholds, rfl, hsettles⟩

theorem Site.Known.go (h : s.Known old fetched)
    (hplaced : ∀ written, fetched.status = some (.ok written) → Placed fetched written) (hrule : s.Timely .go)
    (hstep : s.go = some t) : t.Known old fetched := by
  unfold Site.go at hstep
  split at hstep
  · cases hstep
  · cases hstep
  · rename_i hfetch hdiscard
    obtain ⟨d', hd', rfl⟩ := advance_some hstep
    cases hw : s.task.worker with
    | start | publish requestId =>
      unfold Task.step Task.workerStep at hd'
      rw [hw] at hd'
      cases hd'
      exact h.same _ _ _ _ _ _ rfl (by rw [hw]; rfl)
    | message e | store e | callback e =>
      unfold Task.step Task.workerStep at hd'
      rw [hw] at hd'
      cases hd'
      exact h.same _ _ _ _ _ _ rfl (by rw [hw]; cases e <;> rfl)
    -- from here to the size on disk the counters follow the file
    | setDownloaded | setResumedFrom | setOnDisk totalOnDisk | setTotal finalSize elapsed =>
      unfold Task.step Task.workerStep at hd'
      rw [hw] at hd'
      cases hd'
      unfold Site.Known at h
      rw [hw] at h
      exact h
    | check =>
      unfold Task.step Task.workerStep at hd'
      rw [hw] at hd'
      cases hd'
      split_ifs
      · exact .other rfl
      · exact h.same _ _ _ _ _ _ rfl (by rw [hw]; rfl)
    | judge reply =>
      unfold Task.step Task.workerStep at hd'
      rw [hw] at hd'
      cases hd'
      exact h.judge hw
    | load written =>
      unfold Task.step Task.workerStep at hd'
      rw [hw] at hd'
      cases hd'
      exact h.load hplaced hw (hrule written (by rw [hw]; rfl))
    | count =>
      unfold Task.step Task.workerStep at hd'
      rw [hw] at hd'
      cases hd'
      exact .other rfl
    | fetchToFd => exact absurd hw hfetch
    | discard code message => exact absurd hw (hdiscard code message)
    | _ =>
      unfold Task.step Task.workerStep at hd'
      rw [hw] at hd'
      cases hd'

theorem known_discard {denied : Bool} (hstep : s.step world (.discard denied) = some t) : t.Known old fetched := by
  simp only [Site.step] at hstep
  split at hstep
  · rename_i code message hw
    obtain ⟨d', hd', rfl⟩ := advance_some hstep
    unfold Task.step Task.workerStep at hd'
    rw [hw] at hd'
    cases hd'
    exact .other rfl
  · cases hstep

theorem step_task {move : Move} (hstep : s.step world move = some t) :
    t.task = { s.task with canceled := true } ∨ ∃ event, Moves s.task event t.task := by
  cases Site.step_steps hstep with
  | cancel => exact .inl rfl
  | relay sinceMs h => exact .inr ⟨_, .relay sinceMs (relayStep_relays h)⟩
  | send message unsent hunsent hw => exact .inr ⟨_, .send message hw⟩
  | fetch hw h =>
    have hworks : Works s.task .go (s.task.goto .reply) :=
      .work .go .reply s.task.counters s.task.httpRequestId s.task.resumeFrom (by rw [hw]; rfl) rfl
    exact .inr ⟨_, .work hworks⟩
  | work move event fs ino h => exact .inr ⟨_, .work (workerStep_works h)⟩

theorem Moves.job {d d' : Task} {event : Event} (h : Moves d event d') : d'.job = d.job := by
  cases h with
  | work hworks => cases hworks <;> rfl
  | relay sinceMs hrelays => cases hrelays <;> rfl
  | send => rfl

theorem Site.Known.step (h : s.Known old fetched)
    (hfetched : fetchToFd s.task.job.url old.length true world old = fetched)
    (hplaced : ∀ written, fetched.status = some (.ok written) → Placed fetched written) {move : Move}
    (hrule : s.Timely move) (hstep : s.step world move = some t) : t.Known old fetched := by
  cases move with
  | go => exact h.go hplaced hrule hstep
  | parents denied => exact h.parents hstep
  | measure => exact h.measure hstep
  | openPart denied => exact h.openPart hstep
  | httpService error => exact h.prepare rfl rfl hstep
  | newRequestId answer => exact h.prepare rfl rfl hstep
  | dup denied => exact h.prepare rfl rfl hstep
  | fetchToFd =>
    simp only [Site.step] at hstep
    split_ifs at hstep with hw
    exact h.fetch hfetched hw hstep
  | send => exact h.send hstep
  | reply => exact h.reply hstep
  | lose text =>
    obtain ⟨d', hd', rfl⟩ := advance_some hstep
    have hw : s.task.worker = .reply := workerStep_place hd' rfl
    unfold Task.step Task.workerStep at hd'
    rw [hw] at hd'
    cases hd'
    exact .other rfl
  | rename denied => exact h.rename hstep
  | size elapsed => exact h.size hstep
  | discard denied => exact known_discard hstep
  | relay sinceMs =>
    obtain ⟨d', hd', rfl⟩ := advance_some hstep
    exact h.relay hplaced hd'
  | cancel =>
    cases hstep
    exact h.same _ _ _ _ _ _ rfl rfl

structure Site.Sound (job : Job) (old : Bytes) (fetched : Fetched) (s : Site) : Prop where
  job : s.task.job = job
  agrees : Agrees s.task
  known : s.Known old fetched

theorem Site.Sound.step {job : Job} (h : s.Sound job old fetched)
    (hfetched : fetchToFd job.url old.length true world old = fetched)
    (hplaced : ∀ written, fetched.status = some (.ok written) → Placed fetched written) {move : Move}
    (hrule : s.Timely move) (hstep : s.step world move = some t) : t.Sound job old fetched := by
  have hknown := h.known.step (by rw [h.job, hfetched]) hplaced hrule hstep
  rcases step_task hstep with htask | ⟨event, hmoves⟩
  · refine ⟨?_, ?_, hknown⟩
    · rw [htask]
      exact h.job
    · rw [htask]
      exact ⟨h.agrees.state, h.agrees.message, h.agrees.calls⟩
  · exact ⟨hmoves.job.trans h.job, h.agrees.moves hmoves, hknown⟩

theorem Site.Sound.completed {job : Job} (h : s.Sound job old fetched) (hstate : s.task.state = .completed) :
    s.task.counters.downloaded = s.fs.fileSize job.destPath ∧ s.task.counters.total = s.fs.fileSize job.destPath := by
  obtain ⟨hjob, hagrees, hknown⟩ := h
  obtain ⟨e, hw⟩ := hagrees.terminal (by rw [hstate]; rfl)
  have hstage : s.task.worker.stage = .complete := by
    have hshown := hagrees.state
    rw [hstate] at hshown
    rcases hw with hw | hw
    all_goals
      rw [hw] at hshown ⊢
      cases e with
      | completed finalSize elapsed => rfl
      | failed code message => cases hshown
      | canceled done => cases hshown
  unfold Site.Known at hknown
  dsimp only at hknown
  rw [hstage, hjob] at hknown
  obtain ⟨hsize, hdownloaded, -, htotal⟩ := hknown
  rw [hsize]
  exact ⟨hdownloaded, htotal⟩

end Known

end BinderDownload.DownloadService.Tasks
