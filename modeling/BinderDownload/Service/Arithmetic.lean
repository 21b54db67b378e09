import BinderDownload.Http.Announced
import BinderDownload.Http.Arithmetic
import BinderDownload.Service.Percent

namespace BinderDownload.DownloadService.Tasks

open Text Http Files HttpService

def Task.relayOps (d : Task) (sinceMs : ℤ) : List Op :=
  match d.relay with
  | .idle =>
    match d.inFlight with
    | .bytesReceived received _ :: _ => [.add d.counters.resumedFrom received]
    | _ => []
  | .bytesWindow done =>
    if sinceMs < kClientIntervalMs then []
    else
      [.sub done d.counters.mLastBytes, .mul (done - d.counters.mLastBytes) 1000,
        .div ((done - d.counters.mLastBytes) * 1000) sinceMs]
  | .bytesCall done _ knownTotal => if 0 < knownTotal then [.mul done 100, .div (done * 100) knownTotal] else []
  | _ => []

def Task.workerOps (d : Task) : List Op :=
  match d.worker with
  | .load written => [.add d.counters.resumedFrom written]
  | _ => []

theorem relayOps_chained (d : Task) (sinceMs : ℤ) :
    (d.relayOps sinceMs).IsChain (fun op next => next.left = op.value) := by
  unfold Task.relayOps
  split
  · split
    · exact List.isChain_singleton _
    · exact .nil
  · split_ifs
    · exact .nil
    · exact .cons_cons rfl (.cons_cons rfl (List.isChain_singleton _))
  · split_ifs
    · exact .cons_cons rfl (List.isChain_singleton _)
    · exact .nil
  · exact .nil

theorem relayOps_last {d d' : Task} {sinceMs : ℤ} {op : Op} (hlast : (d.relayOps sinceMs).getLast? = some op)
    (hstep : d.relayStep sinceMs = some d') :
    (∃ total, d'.relay = .bytesDownloaded op.value total) ∨ (∃ done, d'.relay = .bytesLoad done op.value) ∨
      ∃ done rate knownTotal, d'.calls = d.calls ++ [.progress done knownTotal (percent done knownTotal) rate] ∧
        ∀ n ∈ percent done knownTotal, n = toInt32 op.value := by
  unfold Task.relayOps at hlast
  unfold Task.relayStep at hstep
  cases hat : d.relay with
  | idle =>
    simp only [hat, Task.receive] at hlast hstep
    cases hflight : d.inFlight with
    | nil => simp [hflight] at hlast
    | cons message rest =>
      cases message with
      | responseStart code startOffset totalBytes contentType => simp [hflight] at hlast
      | bytesReceived received total =>
        simp only [hflight] at hlast hstep
        cases hlast
        cases hstep
        exact .inl ⟨total, rfl⟩
  | bytesWindow done =>
    simp only [hat] at hlast hstep
    split_ifs at hlast hstep
    · cases hlast
    · cases hlast
      cases hstep
      exact .inr (.inl ⟨done, rfl⟩)
  | bytesCall done rate knownTotal =>
    simp only [hat] at hlast hstep
    split_ifs at hlast with hknown
    · cases hlast
      cases hstep
      refine .inr (.inr ⟨done, rate, knownTotal, rfl, fun n hn => ?_⟩)
      rw [percent, if_pos hknown] at hn
      obtain ⟨product, hproduct, rfl⟩ := Option.map_eq_some_iff.mp hn
      unfold int64 at hproduct
      split_ifs at hproduct
      cases hproduct
      rfl
    · cases hlast
  | startTotal | startDownloaded | startWindow | startCall | bytesDownloaded | bytesTotal | bytesLoad =>
    simp [hat] at hlast

theorem workerOps_value {d d' : Task} {op : Op} (hop : op ∈ d.workerOps) (hstep : d.workerStep .go = some d') :
    d'.worker = .setOnDisk op.value := by
  unfold Task.workerOps at hop
  cases hat : d.worker with
  | load written =>
    simp only [hat, List.mem_singleton] at hop
    subst hop
    simp only [Task.workerStep, hat] at hstep
    cases hstep
    rfl
  | _ => simp [hat] at hop

inductive Turn
  | event (event : Event)
  | cancel

def Task.turn (d : Task) : Turn → Option Task
  | .event event => d.step event
  | .cancel => some { d with canceled := true }

def Task.ops (d : Task) : Turn → List Op
  | .event (.relay sinceMs) => d.relayOps sinceMs
  | .event .go => d.workerOps
  | _ => []

def sendsOf (turns : List Turn) : List Progress :=
  turns.filterMap (fun turn => match turn with
    | .event (.send message) => some message
    | _ => none)

/-- What the others answer about a response that starts at `info.startOffset`: the `.part` file has `resumeFrom` bytes,
at most `received` bytes of the body are counted, and the file at the destination has `finalSize` bytes. -/
def Turn.Answers (info : ResponseInfo) (resumeFrom received finalSize : ℕ) : Turn → Prop
  | .event (.measure size) => size = resumeFrom
  | .event (.reply (.status (.ok written))) => 0 ≤ info.startOffset ∧ written ≤ received
  | .event (.size size _) => size = finalSize
  | _ => True

/-- The messages of a response, as far as they have been sent. None is sent of one that starts in front of the file. -/
structure Attends (info : ResponseInfo) (resumeFrom received finalSize : ℕ) (turns : List Turn) : Prop where
  answers : ∀ turn ∈ turns, turn.Answers info resumeFrom received finalSize
  sends : sendsOf turns = [] ∨
    0 ≤ info.startOffset ∧ ∃ ms : List ℕ, (∀ m ∈ ms, m ≤ received) ∧ sendsOf turns <+: messagesOf info ms

structure Bounded (callback : Bool) (startOffset totalBytes : ℤ) (resumeFrom received finalSize : ℕ) : Prop where
  resumed : resumeFrom + received < 2 ^ 63
  reached : startOffset + received < 2 ^ 63
  rated : callback = true → received * 1000 < 2 ^ 63
  scaled : callback = true → 0 < totalBytes ∨ 0 < finalSize → (startOffset + received) * 100 < 2 ^ 63

section Held

variable (job : Job) (info : ResponseInfo) (resumeFrom received finalSize : ℕ)

def Reached (n : ℤ) : Prop := info.startOffset ≤ n ∧ n ≤ info.startOffset + received

def RelayAt.Holds (mLastBytes : ℤ) : RelayAt → Prop
  | .startTotal startOffset totalBytes | .startDownloaded startOffset totalBytes
  | .startWindow startOffset totalBytes =>
    startOffset = info.startOffset ∧ totalBytes = info.totalBytes
  | .idle | .startCall _ _ => Reached info received mLastBytes
  | .bytesDownloaded done total | .bytesTotal done total =>
    Reached info received mLastBytes ∧ Reached info received done ∧ total = info.totalBytes
  | .bytesWindow done | .bytesLoad done _ =>
    Reached info received mLastBytes ∧ Reached info received done ∧ job.callback = true
  | .bytesCall done _ knownTotal =>
    Reached info received mLastBytes ∧ Reached info received done ∧ job.callback = true ∧
      (0 < knownTotal → 0 < info.totalBytes ∨ 0 < finalSize)

def WorkerAt.Holds : WorkerAt → Prop
  | .judge (.status (.ok written)) | .load written => 0 ≤ info.startOffset ∧ written ≤ received
  | .setTotal n _ => n = finalSize
  | _ => True

def Counting (queue : List Progress) : Prop :=
  ∃ ms : List ℕ, (∀ m ∈ ms, m ≤ received) ∧ queue = ms.map (fun m : ℕ => .bytesReceived m info.totalBytes)

inductive Awaits (d : Task) (queue : List Progress) : Prop
  | starting (idle : d.relay = .idle) (resumedFrom : 0 ≤ d.counters.resumedFrom ∧ d.counters.resumedFrom ≤ resumeFrom)
      (messages : queue = [] ∨ 0 ≤ info.startOffset ∧ ∃ rest, Counting info received rest ∧
        queue = .responseStart info.statusCode info.startOffset info.totalBytes info.contentType :: rest)
  | started (late : d.worker.early = false) (start : 0 ≤ info.startOffset)
      (resumedFrom : d.counters.resumedFrom = info.startOffset) (messages : Counting info received queue)
      (relay : d.relay.Holds job info received finalSize d.counters.mLastBytes)

structure Held (d : Task) (unsent : List Progress) : Prop where
  sameJob : d.job = job
  measured : d.resumeFrom = 0 ∨ d.resumeFrom = resumeFrom
  worker : d.worker.Holds info received finalSize
  sending : d.worker.early = true → d.inFlight = []
  total : 0 < d.counters.total → 0 < info.totalBytes ∨ 0 < finalSize
  awaits : Awaits job info resumeFrom received finalSize d (d.inFlight ++ unsent)

end Held

section Steps

variable {job : Job} {info : ResponseInfo} {resumeFrom received finalSize : ℕ} {d d' : Task} {unsent : List Progress}

theorem Held.fresh (h : unsent = [] ∨ 0 ≤ info.startOffset ∧ ∃ ms : List ℕ, (∀ m ∈ ms, m ≤ received) ∧
    unsent = messagesOf info ms) : Held job info resumeFrom received finalSize { job } unsent := by
  refine ⟨rfl, .inl rfl, trivial, fun _ => rfl, fun h => absurd h (by decide : ¬0 < (-1 : ℤ)),
    .starting rfl ⟨le_rfl, ?_⟩ ?_⟩
  · exact Int.natCast_nonneg _
  · rcases h with h | ⟨hstart, ms, hms, h⟩
    · exact .inl h
    · exact .inr ⟨hstart, _, ⟨ms, hms, rfl⟩, h⟩

theorem Counting.next {message : Progress} {queue : List Progress} (h : Counting info received (message :: queue)) :
    ∃ m ≤ received, message = .bytesReceived m info.totalBytes ∧ Counting info received queue := by
  obtain ⟨ms, hms, hqueue⟩ := h
  cases ms with
  | nil => cases hqueue
  | cons m ms =>
    obtain ⟨hmessage, hrest⟩ := List.cons_eq_cons.mp hqueue
    exact ⟨m, hms m List.mem_cons_self, hmessage, ms, fun n hn => hms n (List.mem_cons_of_mem _ hn), hrest⟩

theorem Reached.rate_sound {mLastBytes done sinceMs : ℤ} (hlast : Reached info received mLastBytes)
    (hdone : Reached info received done) (hrate : received * 1000 < 2 ^ 63) (hlate : ¬sinceMs < kClientIntervalMs) :
    (Op.sub done mLastBytes).Sound ∧ (Op.mul (done - mLastBytes) 1000).Sound ∧
      (Op.div ((done - mLastBytes) * 1000) sinceMs).Sound := by
  obtain ⟨hlow, hhigh⟩ := hlast
  obtain ⟨hlow', hhigh'⟩ := hdone
  have hproduct : (Op.mul (done - mLastBytes) 1000).Sound :=
    scaled_difference_sound (by decide) (by omega : -(received : ℤ) ≤ _) (by omega) (by omega)
  refine ⟨⟨by omega, by omega⟩, hproduct, div_sound hproduct ?_⟩
  unfold kClientIntervalMs at hlate
  omega

theorem Reached.percent_sound {done knownTotal : ℤ} (hstart : 0 ≤ info.startOffset) (hdone : Reached info received done)
    (hscale : (info.startOffset + received) * 100 < 2 ^ 63) (hknown : 0 < knownTotal) :
    (Op.mul done 100).Sound ∧ (Op.div (done * 100) knownTotal).Sound := by
  obtain ⟨hlow, hhigh⟩ := hdone
  have hproduct : (Op.mul done 100).Sound := fits_of_nonneg (by omega) (by omega)
  exact ⟨hproduct, div_sound hproduct hknown⟩

theorem Held.relay_sound (h : Held job info resumeFrom received finalSize d unsent)
    (hbounded : 0 ≤ info.startOffset →
      Bounded job.callback info.startOffset info.totalBytes resumeFrom received finalSize) (sinceMs : ℤ) :
    ∀ op ∈ d.relayOps sinceMs, op.Sound := by
  intro op hop
  cases h.awaits with
  | starting idle resumedFrom messages =>
    -- the first message is the start of the response
    unfold Task.relayOps at hop
    rw [idle] at hop
    dsimp only at hop
    split at hop
    · rename_i m total rest hflight
      rw [hflight] at messages
      rcases messages with hnil | ⟨-, rest', -, hcons⟩
      · cases hnil
      · cases hcons
    · cases hop
  | started late start resumedFrom messages relay =>
    obtain ⟨hresumed, hreached, hrated, hscaled⟩ := hbounded start
    unfold Task.relayOps at hop
    split at hop
    · split at hop
      · rename_i received' total rest hflight
        rw [hflight, List.cons_append] at messages
        obtain ⟨m, hm, hmessage, -⟩ := messages.next
        cases hmessage
        rw [List.mem_singleton.mp hop, resumedFrom]
        exact fits_of_nonneg (by omega) (by omega)
      · cases hop
    · rename_i done hat
      rw [hat] at relay
      obtain ⟨hlast, hdone, hcallback⟩ := relay
      split_ifs at hop with hearly
      · cases hop
      · obtain ⟨hsub, hmul, hdiv⟩ := hlast.rate_sound hdone (hrated hcallback) hearly
        simp only [List.mem_cons, List.not_mem_nil, or_false] at hop
        rcases hop with rfl | rfl | rfl
        · exact hsub
        · exact hmul
        · exact hdiv
    · rename_i done bytesPerSecond knownTotal hat
      rw [hat] at relay
      obtain ⟨-, hdone, hcallback, htotal⟩ := relay
      split_ifs at hop with hknown
      · obtain ⟨hmul, hdiv⟩ := hdone.percent_sound start (hscaled hcallback (htotal hknown)) hknown
        simp only [List.mem_cons, List.not_mem_nil, or_false] at hop
        rcases hop with rfl | rfl
        · exact hmul
        · exact hdiv
      · cases hop
    · cases hop

theorem Held.worker_sound (h : Held job info resumeFrom received finalSize d unsent)
    (hbounded : 0 ≤ info.startOffset →
      Bounded job.callback info.startOffset info.totalBytes resumeFrom received finalSize) :
    ∀ op ∈ d.workerOps, op.Sound := by
  intro op hop
  have hworker := h.worker
  unfold Task.workerOps at hop
  split at hop
  · rename_i written hat
    rw [hat] at hworker
    obtain ⟨hstart, hwritten⟩ := hworker
    obtain ⟨hresumed, hreached, -, -⟩ := hbounded hstart
    rw [List.mem_singleton.mp hop]
    cases h.awaits with
    | starting idle resumedFrom messages => exact fits_of_nonneg (by omega) (by omega)
    | started late start resumedFrom messages relay => exact fits_of_nonneg (by omega) (by omega)
  · cases hop

theorem Held.sound (h : Held job info resumeFrom received finalSize d unsent)
    (hbounded : 0 ≤ info.startOffset →
      Bounded job.callback info.startOffset info.totalBytes resumeFrom received finalSize) (turn : Turn) :
    ∀ op ∈ d.ops turn, op.Sound := by
  unfold Task.ops
  split
  · exact h.relay_sound hbounded _
  · exact h.worker_sound hbounded
  · exact fun op hop => absurd hop List.not_mem_nil

theorem Held.send {message : Progress} (h : Held job info resumeFrom received finalSize d (message :: unsent))
    (hw : d.worker = .reply) :
    Held job info resumeFrom received finalSize { d with inFlight := d.inFlight ++ [message] } unsent := by
  have hqueue : d.inFlight ++ message :: unsent = (d.inFlight ++ [message]) ++ unsent := by simp
  refine ⟨h.sameJob, h.measured, h.worker, fun hearly => ?_, h.total, ?_⟩
  · have hnot : d.worker.early = true := hearly
    rw [hw] at hnot
    cases hnot
  · have hawaits := h.awaits
    rw [hqueue] at hawaits
    cases hawaits with
    | starting idle resumedFrom messages => exact .starting idle resumedFrom messages
    | started late start resumedFrom messages relay => exact .started late start resumedFrom messages relay

theorem Held.receive (h : Held job info resumeFrom received finalSize d unsent) (hidle : d.relay = .idle)
    (hstep : d.receive = some d') : Held job info resumeFrom received finalSize d' unsent := by
  have hlate (hflight : d.inFlight ≠ []) : d.worker.early = false := by
    by_contra hearly
    exact hflight (h.sending (by simpa using hearly))
  obtain ⟨hjob, hmeasured, hworker, hsending, htotal, hawaits⟩ := h
  unfold Task.receive at hstep
  split at hstep
  · cases hstep
  · rename_i code startOffset totalBytes contentType rest hflight
    cases hstep
    have hnow := hlate (by simp [hflight])
    rw [hflight, List.cons_append] at hawaits
    refine ⟨hjob, hmeasured, hworker,
      fun hearly => absurd hearly (by simp [Task.relayTo, Task.setResumedFrom, hnow]), htotal, ?_⟩
    cases hawaits with
    | starting idle resumedFrom messages =>
      rcases messages with hnil | ⟨hstart, rest', hcounting, hqueue⟩
      · cases hnil
      · obtain ⟨hmessage, rfl⟩ := List.cons_eq_cons.mp hqueue
        cases hmessage
        exact .started hnow hstart rfl hcounting ⟨rfl, rfl⟩
    | started late start resumedFrom messages relay =>
      obtain ⟨m, -, hmessage, -⟩ := messages.next
      cases hmessage
  · rename_i received' total rest hflight
    cases hstep
    have hnow := hlate (by simp [hflight])
    rw [hflight, List.cons_append] at hawaits
    refine ⟨hjob, hmeasured, hworker, fun hearly => absurd hearly (by simp [Task.relayTo, hnow]), htotal, ?_⟩
    cases hawaits with
    | starting idle resumedFrom messages =>
      rcases messages with hnil | ⟨-, rest', -, hqueue⟩
      · cases hnil
      · cases (List.cons_eq_cons.mp hqueue).1
    | started late start resumedFrom messages relay =>
      obtain ⟨m, hm, hmessage, hrest⟩ := messages.next
      cases hmessage
      rw [hidle] at relay
      refine .started hnow start resumedFrom hrest ⟨relay, ?_, rfl⟩
      rw [resumedFrom]
      exact ⟨by omega, by omega⟩

theorem relayStep_holds {sinceMs : ℤ} (hbusy : d.relay ≠ .idle) (hstart : d.job = job)
    (h : d.relay.Holds job info received finalSize d.counters.mLastBytes)
    (htotal : 0 < d.counters.total → 0 < info.totalBytes ∨ 0 < finalSize) (hstep : d.relayStep sinceMs = some d') :
    d'.relay.Holds job info received finalSize d'.counters.mLastBytes ∧
      (0 < d'.counters.total → 0 < info.totalBytes ∨ 0 < finalSize) := by
  subst hstart
  unfold Task.relayStep at hstep
  split at hstep
  case h_1 hat => exact absurd hat hbusy
  all_goals
    rename_i hat
    rw [hat] at h
  case h_2 =>
    cases hstep
    exact ⟨h, fun hpos => .inl (h.2 ▸ hpos)⟩
  case h_3 =>
    cases hstep
    exact ⟨h, htotal⟩
  case h_4 startOffset totalBytes =>
    cases hstep
    refine ⟨?_, htotal⟩
    have hlast : Reached info received startOffset := by
      rw [h.1]
      exact ⟨le_rfl, by omega⟩
    show RelayAt.Holds d.job info received finalSize startOffset (if d.job.callback then _ else _)
    split_ifs <;> exact hlast
  case h_5 =>
    cases hstep
    exact ⟨h, htotal⟩
  case h_6 =>
    cases hstep
    exact ⟨h, htotal⟩
  case h_7 done total =>
    obtain ⟨hlast, hdone, rfl⟩ := h
    have hholds : RelayAt.Holds d.job info received finalSize d.counters.mLastBytes
        (if d.job.callback then .bytesWindow done else .idle) := by
      split_ifs with hcallback
      · exact ⟨hlast, hdone, hcallback⟩
      · exact hlast
    by_cases hpos : 0 ≤ info.totalBytes
    · simp only [hpos, if_true] at hstep
      cases hstep
      exact ⟨hholds, .inl⟩
    · simp only [hpos, if_false] at hstep
      cases hstep
      exact ⟨hholds, htotal⟩
  case h_8 =>
    obtain ⟨hlast, hdone, hcallback⟩ := h
    split_ifs at hstep
    · cases hstep
      exact ⟨hlast, htotal⟩
    · cases hstep
      exact ⟨⟨hdone, hdone, hcallback⟩, htotal⟩
  case h_9 =>
    obtain ⟨hlast, hdone, hcallback⟩ := h
    cases hstep
    exact ⟨⟨hlast, hdone, hcallback, htotal⟩, htotal⟩
  case h_10 =>
    cases hstep
    exact ⟨h.1, htotal⟩

theorem Held.relayStep (h : Held job info resumeFrom received finalSize d unsent) {sinceMs : ℤ}
    (hstep : d.relayStep sinceMs = some d') : Held job info resumeFrom received finalSize d' unsent := by
  rcases relayStep_receive hstep with ⟨hidle, hreceive⟩ | ⟨hflight, hfrom⟩
  · exact h.receive hidle hreceive
  · by_cases hbusy : d.relay = .idle
    · rw [Task.relayStep, hbusy] at hstep
      exact h.receive hbusy hstep
    · obtain ⟨hjob, hworker, hresume⟩ := relayStep_worker hstep
      cases h.awaits with
      | starting idle resumedFrom messages => exact absurd idle hbusy
      | started late start resumedFrom messages relay =>
        obtain ⟨hholds, htotal⟩ := relayStep_holds hbusy h.sameJob relay h.total hstep
        refine ⟨hjob.trans h.sameJob, hresume ▸ h.measured, hworker ▸ h.worker, ?_, htotal, ?_⟩
        · rw [hworker, hflight]
          exact h.sending
        · rw [hflight]
          exact .started (hworker ▸ late) start (hfrom.trans resumedFrom) messages hholds

theorem workerStep_numbers {event : Event} (hstep : d.workerStep event = some d') :
    d'.counters.mLastBytes = d.counters.mLastBytes ∧
      (d'.counters.resumedFrom = d.counters.resumedFrom ∨ d'.counters.resumedFrom = d.resumeFrom) ∧
      (d'.resumeFrom = d.resumeFrom ∨ event = .measure d'.resumeFrom) := by
  unfold Task.workerStep at hstep
  split at hstep
  all_goals cases hstep
  all_goals
    first
    | exact ⟨rfl, .inl rfl, .inl rfl⟩
    | exact ⟨rfl, .inr rfl, .inl rfl⟩
    | exact ⟨rfl, .inl rfl, .inr rfl⟩

theorem judge_holds (reply : Reply) (h : (WorkerAt.judge reply).Holds info received finalSize) :
    (d.judge reply).Holds info received finalSize := by
  unfold Task.judge
  split
  · exact h
  · split_ifs <;> trivial
  · split_ifs <;> trivial

theorem workerStep_holds {event : Event} (h : d.worker.Holds info received finalSize)
    (hanswers : (Turn.event event).Answers info resumeFrom received finalSize) (hstep : d.workerStep event = some d') :
    d'.worker.Holds info received finalSize := by
  unfold Task.workerStep at hstep
  split at hstep
  all_goals
    rename_i hat
    cases hstep
  case h_14 =>
    show WorkerAt.Holds info received finalSize (if d.canceled then _ else _)
    split_ifs <;> trivial
  case h_18 reply =>
    show WorkerAt.Holds info received finalSize (.judge reply)
    cases reply with
    | lost text => trivial
    | status status =>
      cases status with
      | ok written => exact hanswers
      | failure code message => trivial
  case h_19 reply =>
    rw [hat] at h
    exact judge_holds reply h
  all_goals first | exact hanswers | trivial

theorem Held.workerStep (h : Held job info resumeFrom received finalSize d unsent) {event : Event}
    (hanswers : (Turn.event event).Answers info resumeFrom received finalSize)
    (hstep : d.workerStep event = some d') : Held job info resumeFrom received finalSize d' unsent := by
  have hholds := workerStep_holds h.worker hanswers hstep
  by_cases hw : d.worker = .fetchToFd
  · obtain rfl := workerStep_fetchToFd hstep hw
    simp only [Task.workerStep, hw] at hstep
    cases hstep
    have hearly : d.worker.early = true := by
      rw [hw]
      rfl
    refine ⟨h.sameJob, h.measured, hholds, fun _ => h.sending hearly, h.total, ?_⟩
    cases h.awaits with
    | starting idle resumedFrom messages => exact .starting idle resumedFrom messages
    | started late start resumedFrom messages relay =>
      rw [hearly] at late
      cases late
  · obtain ⟨hjob, hrelay, hflight, -, htotal, -, hlater⟩ := workerStep_aside hstep hw
    obtain ⟨hlast, hfrom, hmeasured⟩ := workerStep_numbers hstep
    refine ⟨hjob.trans h.sameJob, ?_, hholds, fun hearly => ?_, fun hpos => ?_, ?_⟩
    · rcases hmeasured with hsame | rfl
      · rw [hsame]
        exact h.measured
      · exact .inr hanswers
    · rw [hflight]
      apply h.sending
      by_contra hnot
      have hlate := (hlater (by simpa using hnot)).1
      rw [hearly] at hlate
      cases hlate
    · rcases htotal with hsame | hsize
      · exact h.total (hsame ▸ hpos)
      · unfold WorkerAt.finalSize at hsize
        split at hsize
        · rename_i size elapsed hat
          have hworker := h.worker
          rw [hat] at hworker
          right
          have hsize' : size = d'.counters.total := Option.some.inj hsize
          have hfinal : size = finalSize := hworker
          omega
        · cases hsize
    · rw [hflight]
      cases h.awaits with
      | starting idle resumedFrom messages =>
        refine .starting (hrelay.trans idle) ?_ messages
        have hresume := h.measured
        omega
      | started late start resumedFrom messages relay =>
        obtain ⟨hlate, hkept, -⟩ := hlater late
        refine .started hlate start (hkept.trans resumedFrom) messages ?_
        rw [hrelay, hlast]
        exact relay

theorem Held.turn {turn : Turn} {turns : List Turn} (h : Held job info resumeFrom received finalSize d unsent)
    (hanswers : turn.Answers info resumeFrom received finalSize) (hsends : sendsOf (turn :: turns) <+: unsent)
    (hstep : d.turn turn = some d') :
    ∃ unsent', Held job info resumeFrom received finalSize d' unsent' ∧ sendsOf turns <+: unsent' := by
  cases turn with
  | cancel =>
    cases hstep
    obtain ⟨hjob, hmeasured, hworker, hsending, htotal, hawaits⟩ := h
    refine ⟨unsent, ⟨hjob, hmeasured, hworker, hsending, htotal, ?_⟩, hsends⟩
    cases hawaits with
    | starting idle resumedFrom messages => exact .starting idle resumedFrom messages
    | started late start resumedFrom messages relay => exact .started late start resumedFrom messages relay
  | event event =>
    cases event with
    | send message =>
      obtain ⟨rest, rfl⟩ := hsends
      simp only [Task.turn, Task.step] at hstep
      split_ifs at hstep with hw
      cases hstep
      exact ⟨_, h.send hw, List.prefix_append _ _⟩
    | relay sinceMs => exact ⟨unsent, h.relayStep hstep, hsends⟩
    | _ => exact ⟨unsent, h.workerStep hanswers hstep, hsends⟩

theorem Held.after {turns : List Turn} (h : Held job info resumeFrom received finalSize d unsent)
    (hanswers : ∀ turn ∈ turns, turn.Answers info resumeFrom received finalSize) (hsends : sendsOf turns <+: unsent)
    (hrun : run Task.turn d turns = some d') : ∃ unsent', Held job info resumeFrom received finalSize d' unsent' := by
  induction turns generalizing d unsent with
  | nil =>
    rw [← Option.some.inj hrun]
    exact ⟨unsent, h⟩
  | cons turn turns ih =>
    obtain ⟨v, hv, hrun⟩ := run_cons hrun
    obtain ⟨unsent', h', hsends'⟩ := h.turn (hanswers turn List.mem_cons_self) hsends hv
    exact ih h' (fun turn' hmem => hanswers turn' (List.mem_cons_of_mem _ hmem)) hsends' hrun

theorem runs_sound {turns : List Turn} (h : Attends info resumeFrom received finalSize turns)
    (hbounded : 0 ≤ info.startOffset →
      Bounded job.callback info.startOffset info.totalBytes resumeFrom received finalSize)
    (hrun : run Task.turn { job } turns = some d) (turn : Turn) : ∀ op ∈ d.ops turn, op.Sound := by
  obtain ⟨hanswers, hsends⟩ := h
  obtain ⟨unsent, hunsent, hprefix⟩ : ∃ unsent : List Progress,
      (unsent = [] ∨ 0 ≤ info.startOffset ∧ ∃ ms : List ℕ, (∀ m ∈ ms, m ≤ received) ∧ unsent = messagesOf info ms) ∧
        sendsOf turns <+: unsent := by
    rcases hsends with hnil | ⟨hstart, ms, hms, hprefix⟩
    · exact ⟨[], .inl rfl, hnil ▸ List.prefix_rfl⟩
    · exact ⟨_, .inr ⟨hstart, ms, hms, rfl⟩, hprefix⟩
  obtain ⟨unsent', h'⟩ := (Held.fresh hunsent).after hanswers hprefix hrun
  exact h'.sound hbounded turn

end Steps

section Extremes

variable (job : Job) (info : ResponseInfo) (resumeFrom received finalSize : ℕ)

/-- The way to the reply, with all messages in flight. -/
def toReply : List Turn :=
  [.event .go, .event (.parents none), .event (.measure resumeFrom), .event .go, .event .go, .event (.openPart none),
    .event (.httpService none), .event (.newRequestId (.ok 1)), .event .go, .event .go, .event (.dup none),
    .event .go] ++ (messagesOf info [received]).map (fun message => .event (.send message))

def toSize : List Turn :=
  [.event (.reply (.status (.ok received))), .event .go, .event .go, .event .go, .event (.rename none),
    .event (.size finalSize 0), .event .go]

def replying : Task where
  job := job
  state := .running
  counters := { downloaded := resumeFrom, resumedFrom := resumeFrom }
  httpRequestId := 1
  worker := .reply
  resumeFrom := resumeFrom
  inFlight := messagesOf info [received]

def counting : Task :=
  { replying job info resumeFrom received with
    counters :=
      { downloaded := info.startOffset, total := info.totalBytes, resumedFrom := info.startOffset
        mLastBytes := info.startOffset }
    inFlight := [.bytesReceived received info.totalBytes]
    calls := if job.callback then [.started job.url info.totalBytes info.startOffset] else [] }

def rating : Task :=
  { counting job info resumeFrom received with
    counters :=
      { downloaded := info.startOffset + received, total := info.totalBytes, resumedFrom := info.startOffset
        mLastBytes := info.startOffset }
    inFlight := []
    relay := .bytesWindow (info.startOffset + received) }

theorem run_replying :
    run Task.turn { job } (toReply info resumeFrom received) = some (replying job info resumeFrom received) := rfl

theorem run_counting : ∃ turns, (∀ turn ∈ turns, ∃ sinceMs, turn = .event (.relay sinceMs)) ∧
    run Task.turn (replying job info resumeFrom received) turns = some (counting job info resumeFrom received) := by
  cases hcallback : job.callback with
  | true =>
    refine ⟨List.replicate 5 (.event (.relay 0)), by simp, ?_⟩
    simp [run, Task.turn, Task.step, Task.relayStep, Task.receive, replying, counting, messagesOf, hcallback,
      Task.setTotal, Task.setDownloaded, Task.setResumedFrom, Task.setLastBytes, Task.relayTo, Task.tell]
  | false =>
    refine ⟨List.replicate 4 (.event (.relay 0)), by simp, ?_⟩
    simp [run, Task.turn, Task.step, Task.relayStep, Task.receive, replying, counting, messagesOf, hcallback,
      Task.setTotal, Task.setDownloaded, Task.setResumedFrom, Task.setLastBytes, Task.relayTo, Task.tell]

theorem run_rating (hcallback : job.callback = true) :
    run Task.turn (counting job info resumeFrom received) (List.replicate 3 (.event (.relay 0))) =
      some (rating job info resumeFrom received) := by
  by_cases hknown : 0 ≤ info.totalBytes
  · simp [run, Task.turn, Task.step, Task.relayStep, Task.receive, replying, counting, rating, hcallback, hknown,
      Task.setTotal, Task.setDownloaded, Task.relayTo]
  · simp [run, Task.turn, Task.step, Task.relayStep, Task.receive, replying, counting, rating, hcallback, hknown,
      Task.setDownloaded, Task.relayTo]

theorem run_scaling : ∃ d,
    run Task.turn (rating job info resumeFrom received) [.event (.relay 200), .event (.relay 0)] = some d ∧
      ∃ rate, d.relay = .bytesCall (info.startOffset + received) rate info.totalBytes := by
  refine ⟨_, rfl, _, rfl⟩

theorem run_scaling_late : ∃ d, run Task.turn (rating job info resumeFrom received)
      (.event (.relay 200) :: toSize received finalSize ++ [.event (.relay 0)]) = some d ∧
    ∃ rate, d.relay = .bytesCall (info.startOffset + received) rate finalSize := by
  refine ⟨_, rfl, _, rfl⟩

variable {info received finalSize}

theorem sendsOf_relays {turns : List Turn} (h : ∀ turn ∈ turns, ∃ sinceMs, turn = .event (.relay sinceMs)) :
    sendsOf turns = [] := by
  apply List.filterMap_eq_nil_iff.mpr
  intro turn hturn
  obtain ⟨sinceMs, rfl⟩ := h turn hturn
  rfl

theorem answers_relays {turns : List Turn} (h : ∀ turn ∈ turns, ∃ sinceMs, turn = .event (.relay sinceMs)) :
    ∀ turn ∈ turns, turn.Answers info resumeFrom received finalSize := by
  intro turn hturn
  obtain ⟨sinceMs, rfl⟩ := h turn hturn
  trivial

theorem answers_toSize (hstart : 0 ≤ info.startOffset) :
    ∀ turn ∈ toSize received finalSize, turn.Answers info resumeFrom received finalSize := by
  intro turn hturn
  simp only [toSize, List.mem_cons, List.not_mem_nil, or_false] at hturn
  rcases hturn with rfl | rfl | rfl | rfl | rfl | rfl | rfl
  · exact ⟨hstart, le_rfl⟩
  all_goals first | rfl | trivial

theorem sendsOf_append (turns turns' : List Turn) : sendsOf (turns ++ turns') = sendsOf turns ++ sendsOf turns' :=
  List.filterMap_append

theorem attends_toReply (hstart : 0 ≤ info.startOffset) {turns : List Turn}
    (hanswers : ∀ turn ∈ turns, turn.Answers info resumeFrom received finalSize) (hsends : sendsOf turns = []) :
    Attends info resumeFrom received finalSize (toReply info resumeFrom received ++ turns) := by
  refine ⟨fun turn hturn => ?_, .inr ⟨hstart, [received], by simp, ?_⟩⟩
  · rcases List.mem_append.mp hturn with hturn | hturn
    · simp only [toReply, messagesOf, List.map_cons, List.map_nil, List.mem_append, List.mem_cons, List.not_mem_nil,
        or_false] at hturn
      rcases hturn with (rfl | rfl | rfl | rfl | rfl | rfl | rfl | rfl | rfl | rfl | rfl | rfl) | rfl | rfl
      all_goals first | rfl | trivial
    · exact hanswers turn hturn
  · rw [sendsOf_append, hsends, List.append_nil]
    exact List.prefix_rfl

variable {job resumeFrom}

theorem bounded_of_sound (hstart : 0 ≤ info.startOffset)
    (h : ∀ turns d turn, Attends info resumeFrom received finalSize turns → run Task.turn { job } turns = some d →
      ∀ op ∈ d.ops turn, op.Sound) :
    Bounded job.callback info.startOffset info.totalBytes resumeFrom received finalSize := by
  have hreplying := run_replying job info resumeFrom received
  obtain ⟨relays, hrelays, hcounting⟩ := run_counting job info resumeFrom received
  have hturns {turns : List Turn} {d : Task}
      (hanswers : ∀ turn ∈ turns, turn.Answers info resumeFrom received finalSize) (hsends : sendsOf turns = [])
      (hrun : run Task.turn (counting job info resumeFrom received) turns = some d)
      (turn : Turn) : ∀ op ∈ d.ops turn, op.Sound := by
    refine h (toReply info resumeFrom received ++ (relays ++ turns)) d turn (attends_toReply resumeFrom hstart ?_ ?_) ?_
    · intro turn hturn
      rcases List.mem_append.mp hturn with hturn | hturn
      · exact answers_relays resumeFrom hrelays turn hturn
      · exact hanswers turn hturn
    · rw [sendsOf_append, sendsOf_relays hrelays, hsends, List.append_nil]
    · rw [run_append hreplying, run_append hcounting, hrun]
  have hrating (hcallback : job.callback = true) {turns : List Turn} {d : Task}
      (hanswers : ∀ turn ∈ turns, turn.Answers info resumeFrom received finalSize) (hsends : sendsOf turns = [])
      (hrun : run Task.turn (rating job info resumeFrom received) turns = some d) (turn : Turn) :
      ∀ op ∈ d.ops turn, op.Sound := by
    have hreplicate : ∀ turn ∈ List.replicate 3 (Turn.event (.relay 0)), ∃ sinceMs, turn = .event (.relay sinceMs) := by
      simp
    refine @hturns (List.replicate 3 (.event (.relay 0)) ++ turns) d ?_ ?_ ?_ turn
    · intro turn hturn
      rcases List.mem_append.mp hturn with hturn | hturn
      · exact answers_relays resumeFrom hreplicate turn hturn
      · exact hanswers turn hturn
    · rw [sendsOf_append, sendsOf_relays hreplicate, hsends, List.append_nil]
    · rw [run_append (run_rating job info resumeFrom received hcallback), hrun]
  refine ⟨?_, ?_, fun hcallback => ?_, fun hcallback hknown => ?_⟩
  · have hfits := h (toReply info resumeFrom received ++ [.event (.reply (.status (.ok received))), .event .go]) _
      (.event .go) (attends_toReply resumeFrom hstart (by simp [Turn.Answers, hstart]) rfl) (run_append hreplying)
      (.add resumeFrom received) (List.mem_singleton.mpr rfl)
    have hlt := hfits.2
    omega
  · have hfits := @hturns [] _ (by simp) rfl rfl (.event (.relay 0)) (.add info.startOffset received)
      (List.mem_singleton.mpr rfl)
    exact hfits.2
  · have hfits := @hrating hcallback [] _ (by simp) rfl rfl (.event (.relay 200))
      (.mul (info.startOffset + received - info.startOffset) 1000)
      (by simp [Task.ops, Task.relayOps, rating, kClientIntervalMs])
    have hlt := hfits.2
    omega
  · have hscaled {turns : List Turn} {d : Task} {rate knownTotal : ℤ} (hknown : 0 < knownTotal)
        (hanswers : ∀ turn ∈ turns, turn.Answers info resumeFrom received finalSize) (hsends : sendsOf turns = [])
        (hrun : run Task.turn (rating job info resumeFrom received) turns = some d)
        (hat : d.relay = .bytesCall (info.startOffset + received) rate knownTotal) :
        (info.startOffset + received) * 100 < 2 ^ 63 := by
      have hfits := hrating hcallback hanswers hsends hrun (.event (.relay 0)) (.mul (info.startOffset + received) 100)
        (by simp [Task.ops, Task.relayOps, hat, hknown])
      exact hfits.2
    rcases hknown with htotal | hfinal
    · obtain ⟨d, hrun, rate, hat⟩ := run_scaling job info resumeFrom received
      exact hscaled htotal (by simp [Turn.Answers]) rfl hrun hat
    · obtain ⟨d, hrun, rate, hat⟩ := run_scaling_late job info resumeFrom received finalSize
      refine hscaled (by exact_mod_cast hfinal) ?_ rfl hrun hat
      intro turn hturn
      rcases List.mem_append.mp hturn with hturn | hturn
      · rcases List.mem_cons.mp hturn with rfl | hturn
        · trivial
        · exact answers_toSize resumeFrom hstart turn hturn
      · rw [List.mem_singleton.mp hturn]
        trivial

end Extremes

structure SizesFit (job : Job) (request : Http.Request) (headers : Headers) (head : Head)
    (resumeFrom received finalSize : ℕ) : Prop where
  placement : ∀ op ∈ placementOps request head.info.statusCode headers, op.Sound
  body : ∀ (σ : Type) (r : Reader) (onBody : BodyFn σ) (s : σ), ∀ op ∈ bodyOps head r onBody s, op.Sound
  runs : ∀ turns d turn, Attends head.info resumeFrom received finalSize turns → run Task.turn { job } turns = some d →
    ∀ op ∈ d.ops turn, op.Sound

theorem sizes_fit (job : Job) (url : Url) (text : Bytes) (resumeFrom received finalSize : ℕ) (info : ResponseInfo)
    (headers : Headers) (head : Head) (h : inspectHead url { url := text, resumeFrom } info headers = .ok head) :
    SizesFit job { url := text, resumeFrom } headers head resumeFrom received finalSize ↔
      (info.statusCode = 206 → parseContentRange (headers.get (ascii "Content-Range")) = none →
          0 ≤ contentLength headers → resumeFrom + contentLength headers < 2 ^ 63) ∧
        (0 ≤ (placement { url := text, resumeFrom } info.statusCode headers).1 →
          Bounded job.callback (placement { url := text, resumeFrom } info.statusCode headers).1
            (placement { url := text, resumeFrom } info.statusCode headers).2 resumeFrom received finalSize) := by
  obtain ⟨hstatus, hplace⟩ := inspectHead_placed h
  have hsums := placementOps_sound { url := text, resumeFrom } info.statusCode headers (Int.natCast_nonneg _)
  have hlength := inspectHead_length h
  dsimp only at hstatus hplace
  rw [← hplace, ← hsums]
  constructor
  · rintro ⟨hplacement, -, hruns⟩
    exact ⟨hstatus ▸ hplacement, fun hstart => bounded_of_sound hstart hruns⟩
  · rintro ⟨hplacement, hbounded⟩
    refine ⟨hstatus ▸ hplacement, fun σ r onBody s => ?_, fun turns d turn hattends hrun => ?_⟩
    · exact bodyOps_sound (hlength ▸ (contentLength_fits headers).2) r onBody s
    · exact runs_sound hattends hbounded hrun turn

theorem sizes_fit_resumed :
    let job : Job := ⟨1, ascii "http://h/f", ascii "f", true, by decide, by decide, by decide⟩
    let url : Url := ⟨ascii "http", ascii "h", ascii "80", ascii "/f"⟩
    let request : Http.Request := { url := job.url, resumeFrom := 1 }
    let headers : Headers :=
      ⟨[(ascii "content-range", ascii "bytes 1-1/2"), (ascii "content-length", ascii "1")]⟩
    ∃ head, inspectHead url request { statusCode := 206 } headers = .ok head ∧
      head.info.startOffset = 1 ∧ head.info.totalBytes = 2 ∧ SizesFit job request headers head 1 1 2 := by
  intro job url request headers
  have hrange : parseContentRange (headers.get (ascii "Content-Range")) = some (1, 2) := by decide +kernel
  have hplace : placement request 206 headers = (1, 2) := by
    unfold placement
    rw [if_pos rfl, hrange]
  obtain ⟨head, hhead⟩ : ∃ head, inspectHead url request { statusCode := 206 } headers = .ok head := ⟨_, rfl⟩
  have hplaced : (head.info.startOffset, head.info.totalBytes) = (1, 2) := (inspectHead_placed hhead).2.trans hplace
  refine ⟨head, hhead, congrArg Prod.fst hplaced, congrArg Prod.snd hplaced, ?_⟩
  refine (sizes_fit job url job.url 1 1 2 _ headers head hhead).mpr ⟨fun _ hnone => ?_, fun _ => ?_⟩
  · rw [hrange] at hnone
    cases hnone
  · show Bounded true (placement request 206 headers).1 (placement request 206 headers).2 1 1 2
    rw [hplace]
    exact ⟨by decide, by decide, by decide, by decide⟩

theorem sizes_overflow :
    let job : Job := ⟨1, ascii "http://h/f", ascii "f", true, by decide, by decide, by decide⟩
    let request : Http.Request := { url := job.url, resumeFrom := 1 }
    let headers : Headers := ⟨[(ascii "content-length", ascii "9223372036854775807")]⟩
    ∃ head, inspectHead ⟨ascii "http", ascii "h", ascii "80", ascii "/f"⟩ request { statusCode := 206 } headers =
        .ok head ∧
      ¬SizesFit job request headers head 1 0 1 := by
  intro job request headers
  refine ⟨_, rfl, fun h => ?_⟩
  have hrange : parseContentRange (headers.get (ascii "Content-Range")) = none := by decide +kernel
  have hlength : contentLength headers = 9223372036854775807 := by decide +kernel
  have hsum : Op.add 1 9223372036854775807 ∈ placementOps request 206 headers := by
    unfold placementOps
    rw [if_pos rfl, hrange]
    simp only [hlength]
    decide
  exact absurd (h.placement _ hsum).2 (by decide)

end BinderDownload.DownloadService.Tasks
