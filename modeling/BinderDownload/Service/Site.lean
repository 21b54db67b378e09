import BinderDownload.Service.Attempt
import BinderDownload.Service.Lifecycle

/-!
One task on a machine of its own: the answers of the file system are those of its files, and the messages
and the reply of the http service are those of `fetchToFd`. The messages are sent before the reply, and each
of them may be handled after it.
-/

namespace BinderDownload.DownloadService.Tasks

open Text Files HttpService

structure Site where
  task : Task
  fs : Fs
  ino : ℕ := 0
  unsent : List Progress := []
  status : Option Status := none

inductive Move
  | go
  | parents (denied : Bytes → Option Errno)
  | measure
  | openPart (denied : Option Errno)
  | httpService (error : Option Bytes)
  | newRequestId (answer : Except Bytes ℤ)
  | dup (denied : Option Errno)
  | fetchToFd
  | send
  | reply
  | lose (text : Bytes)
  | rename (denied : Option Errno)
  | size (elapsed : ℤ)
  | discard (denied : Bool)
  | relay (sinceMs : ℤ)
  | cancel

namespace Site

def advance (s : Site) (event : Event) : Option Site := (s.task.step event).map (fun task => { s with task })

def openPart (s : Site) (denied : Option Errno) : Option Site :=
  match s.fs.openWrite s.task.job.partPath denied with
  | .error e => s.advance (.openPart (some e))
  | .ok (ino, fs) => { s with ino, fs }.advance (.openPart none)

def rename (s : Site) (denied : Option Errno) : Option Site :=
  match s.fs.rename s.task.job.partPath s.task.job.destPath denied with
  | .error e => s.advance (.rename (some e))
  | .ok fs => { s with fs }.advance (.rename none)

def fetch (world : World) (s : Site) : Option Site :=
  let fetched := HttpService.fetchToFd s.task.job.url s.task.resumeFrom true world (s.fs.data s.ino)
  { s with fs := s.fs.setData s.ino fetched.bytes, unsent := fetched.sent, status := fetched.status }.advance .go

def discard (s : Site) (denied : Bool) : Option Site :=
  { s with
    fs := if s.fs.fileSize s.task.job.partPath = 0 then s.fs.unlink s.task.job.partPath denied else s.fs }.advance .go

def go (s : Site) : Option Site :=
  match s.task.worker with
  | .fetchToFd => none
  | .discard _ _ => none
  | _ => s.advance .go

def step (world : World) (s : Site) : Move → Option Site
  | .go => s.go
  | .parents denied =>
    { s with fs := (ensureParentDir s.task.job.destPath denied s.fs).2 }.advance
      (.parents (ensureParentDir s.task.job.destPath denied s.fs).1)
  | .measure => s.advance (.measure (s.fs.fileSize s.task.job.partPath))
  | .openPart denied => s.openPart denied
  | .httpService error => s.advance (.httpService error)
  | .newRequestId answer => s.advance (.newRequestId answer)
  | .dup denied => s.advance (.dup denied)
  | .fetchToFd => if s.task.worker = .fetchToFd then s.fetch world else none
  | .send =>
    match s.unsent with
    | [] => none
    | message :: unsent => { s with unsent }.advance (.send message)
  | .reply => if s.unsent = [] then s.status.bind (fun status => s.advance (.reply (.status status))) else none
  | .lose text => s.advance (.reply (.lost text))
  | .rename denied => s.rename denied
  | .size elapsed => s.advance (.size (s.fs.fileSize s.task.job.destPath) elapsed)
  | .discard denied =>
    match s.task.worker with
    | .discard _ _ => s.discard denied
    | _ => none
  | .relay sinceMs => s.advance (.relay sinceMs)
  | .cancel => some { s with task := { s.task with canceled := true } }

end Site

theorem workerStep_fetchToFd {d d' : Task} {event : Event} (h : d.workerStep event = some d')
    (hw : d.worker = .fetchToFd) : event = .go := by
  unfold Task.workerStep at h
  rw [hw] at h
  cases event with
  | go => rfl
  | _ => cases h

namespace Site

inductive Steps (world : World) (s : Site) : Move → Site → Prop
  | cancel : Steps world s .cancel { s with task := { s.task with canceled := true } }
  | relay (sinceMs : ℤ) {d' : Task} (h : s.task.relayStep sinceMs = some d') :
      Steps world s (.relay sinceMs) { s with task := d' }
  | send (message : Progress) (unsent : List Progress) (hunsent : s.unsent = message :: unsent)
      (hw : s.task.worker = .reply) :
      Steps world s .send { s with task := { s.task with inFlight := s.task.inFlight ++ [message] }, unsent }
  | fetch (hw : s.task.worker = .fetchToFd) {fetched : Fetched}
      (h : HttpService.fetchToFd s.task.job.url s.task.resumeFrom true world (s.fs.data s.ino) = fetched) :
      Steps world s .fetchToFd
        { s with
          task := s.task.goto .reply, fs := s.fs.setData s.ino fetched.bytes
          unsent := fetched.sent, status := fetched.status }
  | work (move : Move) (event : Event) (fs : Fs) (ino : ℕ) {d' : Task} (h : s.task.workerStep event = some d')
      (hw : s.task.worker ≠ .fetchToFd)
      (hgo : event = .go → move = .go ∨ ∃ code message, s.task.worker = .discard code message) :
      Steps world s move { s with task := d', fs, ino }

variable {world : World} {s t : Site}

theorem Steps.of_advance {event : Event} {move : Move} (fs : Fs) (ino : ℕ)
    (h : { s with fs, ino }.advance event = some t) (hstep : s.task.step event = s.task.workerStep event)
    (hw : event = .go → s.task.worker ≠ .fetchToFd)
    (hgo : event = .go → move = .go ∨ ∃ code message, s.task.worker = .discard code message) :
    Steps world s move t := by
  obtain ⟨d', hd', rfl⟩ := Option.map_eq_some_iff.mp h
  have hwork : s.task.workerStep event = some d' := hstep.symm.trans hd'
  exact .work move event fs ino hwork (fun hat => hw (workerStep_fetchToFd hwork hat) hat) hgo

theorem step_steps {move : Move} (h : s.step world move = some t) : Steps world s move t := by
  cases move with
  | cancel =>
    cases h
    exact .cancel
  | relay sinceMs =>
    obtain ⟨d', hd', rfl⟩ := Option.map_eq_some_iff.mp h
    exact .relay sinceMs hd'
  | send =>
    simp only [step] at h
    split at h
    · cases h
    · rename_i message unsent hunsent
      obtain ⟨d', hd', rfl⟩ := Option.map_eq_some_iff.mp h
      simp only [Task.step] at hd'
      split_ifs at hd' with hw
      cases hd'
      exact .send message unsent hunsent hw
  | fetchToFd =>
    simp only [step] at h
    split_ifs at h with hw
    obtain ⟨d', hd', rfl⟩ := Option.map_eq_some_iff.mp h
    simp only [Task.step, Task.workerStep, hw] at hd'
    cases hd'
    exact .fetch hw rfl
  | go =>
    simp only [step, go] at h
    split at h
    · cases h
    · cases h
    · exact .of_advance s.fs s.ino h rfl (fun _ => ‹_›) (fun _ => .inl rfl)
  | discard denied =>
    simp only [step] at h
    split at h
    · rename_i code message hw
      exact .of_advance _ s.ino h rfl (fun _ => by rw [hw]; exact WorkerAt.noConfusion) (fun _ => .inr ⟨_, _, hw⟩)
    · cases h
  | openPart denied =>
    simp only [step, openPart] at h
    split at h
    · exact .of_advance s.fs s.ino h rfl (fun he => by cases he) (fun he => by cases he)
    · exact .of_advance _ _ h rfl (fun he => by cases he) (fun he => by cases he)
  | rename denied =>
    simp only [step, rename] at h
    split at h
    · exact .of_advance s.fs s.ino h rfl (fun he => by cases he) (fun he => by cases he)
    · exact .of_advance _ s.ino h rfl (fun he => by cases he) (fun he => by cases he)
  | reply =>
    simp only [step] at h
    split_ifs at h
    obtain ⟨status, -, h⟩ := Option.bind_eq_some_iff.mp h
    exact .of_advance s.fs s.ino h rfl (fun he => by cases he) (fun he => by cases he)
  | parents denied => exact .of_advance _ s.ino h rfl (fun he => by cases he) (fun he => by cases he)
  | measure | httpService error | newRequestId answer | dup denied | lose text | size elapsed =>
    exact .of_advance s.fs s.ino h rfl (fun he => by cases he) (fun he => by cases he)

end Site

def settles (resumedFrom size : ℤ) : Progress → Prop
  | .responseStart _ startOffset totalBytes _ => startOffset = resumedFrom ∧ startOffset = size ∧ totalBytes = size
  | .bytesReceived received total => resumedFrom + received = size ∧ (0 ≤ total → total = size)

def RelayAt.settles (size : ℤ) : RelayAt → Prop
  | .startTotal startOffset totalBytes => startOffset = size ∧ totalBytes = size
  | .startDownloaded startOffset _ => startOffset = size
  | .bytesDownloaded done total => done = size ∧ (0 ≤ total → total = size)
  | .bytesTotal _ total => 0 ≤ total → total = size
  | _ => True

/-- What the relay has still to store in `downloaded` and `total` is `size`. -/
def Task.Settles (d : Task) (size : ℤ) : Prop :=
  d.relay.settles size ∧ ∀ m ∈ d.inFlight, settles d.counters.resumedFrom size m

instance (resumedFrom size : ℤ) : DecidablePred (settles resumedFrom size)
  | .responseStart _ _ _ _ => inferInstanceAs (Decidable (_ ∧ _ ∧ _))
  | .bytesReceived _ _ => inferInstanceAs (Decidable (_ ∧ (_ → _)))

instance (size : ℤ) : DecidablePred (RelayAt.settles size)
  | .startTotal _ _ => inferInstanceAs (Decidable (_ ∧ _))
  | .startDownloaded _ _ => inferInstanceAs (Decidable (_ = _))
  | .bytesDownloaded _ _ => inferInstanceAs (Decidable (_ ∧ (_ → _)))
  | .bytesTotal _ _ => inferInstanceAs (Decidable (_ → _))
  | .idle | .startWindow _ _ | .startCall _ _ | .bytesWindow _ | .bytesLoad _ _ | .bytesCall _ _ _ => isTrue trivial

instance (d : Task) (size : ℤ) : Decidable (d.Settles size) := inferInstanceAs (Decidable (_ ∧ _))

variable {d d' : Task} {size : ℤ}

structure Task.Keeps (d d' : Task) (size : ℤ) : Prop where
  settles : d'.Settles size
  downloaded : d.counters.downloaded = size → d'.counters.downloaded = size
  total : d.counters.total = size → d'.counters.total = size

theorem Task.Settles.receive (h : d.Settles size) (hstep : d.receive = some d') : d.Keeps d' size := by
  unfold Task.receive at hstep
  split at hstep
  · cases hstep
  · rename_i code startOffset totalBytes contentType rest hflight
    cases hstep
    obtain ⟨hfrom, hsize, htotal⟩ := h.2 _ (by rw [hflight]; exact List.mem_cons_self)
    refine ⟨⟨⟨hsize, htotal⟩, fun m hm => ?_⟩, id, id⟩
    have hm' := h.2 m (by rw [hflight]; exact List.mem_cons_of_mem _ hm)
    rw [← hfrom] at hm'
    exact hm'
  · rename_i received total rest hflight
    cases hstep
    obtain ⟨hdone, htotal⟩ := h.2 _ (by rw [hflight]; exact List.mem_cons_self)
    refine ⟨⟨⟨hdone, htotal⟩, fun m hm => ?_⟩, id, id⟩
    exact h.2 m (by rw [hflight]; exact List.mem_cons_of_mem _ hm)

theorem Task.Settles.relayStep (h : d.Settles size) {sinceMs : ℤ} (hstep : d.relayStep sinceMs = some d') :
    d.Keeps d' size := by
  have hrelay := h.1
  unfold Task.relayStep at hstep
  split at hstep
  case h_1 => exact h.receive hstep
  all_goals
    rename_i hat
    rw [hat] at hrelay
  · cases hstep
    exact ⟨⟨hrelay.1, h.2⟩, id, fun _ => hrelay.2⟩
  · cases hstep
    exact ⟨⟨trivial, h.2⟩, fun _ => hrelay, id⟩
  · cases hstep
    refine ⟨⟨?_, h.2⟩, id, id⟩
    show RelayAt.settles size (if d.job.callback then _ else _)
    split_ifs <;> trivial
  · cases hstep
    exact ⟨⟨trivial, h.2⟩, id, id⟩
  · cases hstep
    exact ⟨⟨hrelay.2, h.2⟩, fun _ => hrelay.1, id⟩
  · rename_i done total
    by_cases ht : 0 ≤ total
    · simp only [ht, if_true] at hstep
      cases hstep
      refine ⟨⟨?_, h.2⟩, id, fun _ => hrelay ht⟩
      show RelayAt.settles size (if d.job.callback then _ else _)
      split_ifs <;> trivial
    · simp only [ht, if_false] at hstep
      cases hstep
      refine ⟨⟨?_, h.2⟩, id, id⟩
      show RelayAt.settles size (if d.job.callback then _ else _)
      split_ifs <;> trivial
  · split_ifs at hstep
    all_goals cases hstep
    all_goals exact ⟨⟨trivial, h.2⟩, id, id⟩
  · cases hstep
    exact ⟨⟨trivial, h.2⟩, id, id⟩
  · cases hstep
    exact ⟨⟨trivial, h.2⟩, id, id⟩

theorem relayStep_receive {sinceMs : ℤ} (hstep : d.relayStep sinceMs = some d') :
    d.relay = .idle ∧ d.receive = some d' ∨
      d'.inFlight = d.inFlight ∧ d'.counters.resumedFrom = d.counters.resumedFrom := by
  unfold Task.relayStep at hstep
  split at hstep
  case h_1 => exact .inl ⟨‹_›, hstep⟩
  case h_7 =>
    cases hstep
    right
    split_ifs <;> exact ⟨rfl, rfl⟩
  case h_8 =>
    split_ifs at hstep
    all_goals cases hstep
    all_goals exact .inr ⟨rfl, rfl⟩
  all_goals
    cases hstep
    exact .inr ⟨rfl, rfl⟩

theorem relayStep_worker {sinceMs : ℤ} (hstep : d.relayStep sinceMs = some d') :
    d'.job = d.job ∧ d'.worker = d.worker ∧ d'.resumeFrom = d.resumeFrom := by
  cases relayStep_relays hstep with
  | quiet => exact ⟨rfl, rfl, rfl⟩
  | call => exact ⟨rfl, rfl, rfl⟩

end BinderDownload.DownloadService.Tasks
