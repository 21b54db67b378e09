import BinderDownload.Client.Bar
import BinderDownload.Service.FinalCounters

namespace BinderDownload.DownloadService

open Text Http Files HttpService

def ClientCall.InRange : ClientCall → Prop
  | .progress _ _ percent _ =>
    ∃ value, percent = some value ∧ (value = -1 ∨ 0 ≤ value ∧ value ≤ 100) ∧
      ∀ bar : Bytes, bar.length = 41 → (Client.paint bar value).isSome
  | _ => True

/-- `done` is at most 100 percent of `total`, rounded down, and its hundredfold fits into 64 bits. -/
def Scaled (done total : ℤ) : Prop := total ≤ 0 ∨ done * 100 < 2 ^ 63 ∧ done * 100 < 101 * total

instance (done total : ℤ) : Decidable (Scaled done total) := inferInstanceAs (Decidable (_ ∨ _ ∧ _))

theorem Scaled.mono {done reach total : ℤ} (h : Scaled reach total) (hle : done ≤ reach) : Scaled done total := by
  rcases h with h | ⟨hfits, hscaled⟩
  · exact .inl h
  · exact .inr ⟨by omega, by omega⟩

theorem percent_scaled {done total : ℤ} (hdone : 0 ≤ done) (h : Scaled done total) :
    ∃ value, percent done total = some value ∧ (value = -1 ∨ 0 ≤ value ∧ value ≤ 100) := by
  unfold percent
  by_cases hpos : 0 < total
  · obtain ⟨hfits, hscaled⟩ : done * 100 < 2 ^ 63 ∧ done * 100 < 101 * total := by
      rcases h with h | h
      · omega
      · exact h
    have hint : int64 (done * 100) = some (done * 100) := if_pos ⟨by omega, hfits⟩
    have hdiv : (done * 100).tdiv total = done * 100 / total := Int.tdiv_eq_ediv_of_nonneg (by omega)
    have hlow : 0 ≤ done * 100 / total := Int.ediv_nonneg (by omega) (by omega)
    have hhigh : done * 100 / total < 101 := Int.ediv_lt_of_lt_mul hpos hscaled
    refine ⟨done * 100 / total, ?_, .inr ⟨hlow, by omega⟩⟩
    rw [if_pos hpos, hint, Option.map_some, hdiv, toInt32_small (by omega) (by omega)]
  · exact ⟨-1, if_neg hpos, .inl rfl⟩

theorem inRange_progress {done total bytesPerSecond : ℤ} (hdone : 0 ≤ done) (h : Scaled done total) :
    (ClientCall.progress done total (percent done total) bytesPerSecond).InRange := by
  obtain ⟨value, hvalue, hrange⟩ := percent_scaled hdone h
  refine ⟨value, hvalue, hrange, fun bar hbar => ?_⟩
  obtain ⟨n, -, hpaint⟩ := @Client.paint_full bar value hbar (by omega)
  rw [hpaint]
  rfl

namespace Tasks

def Queued (reach : ℤ) : ℤ → List Progress → Prop
  | _, [] => True
  | _, .responseStart _ startOffset totalBytes _ :: rest => Scaled reach totalBytes ∧ Queued reach startOffset rest
  | resumedFrom, .bytesReceived received total :: rest =>
    (0 ≤ resumedFrom + received ∧ resumedFrom + received ≤ reach) ∧ Scaled reach total ∧
      Queued reach resumedFrom rest

def RelayAt.Within (reach : ℤ) : RelayAt → Prop
  | .startTotal _ totalBytes => Scaled reach totalBytes
  | .bytesDownloaded done total | .bytesTotal done total => (0 ≤ done ∧ done ≤ reach) ∧ Scaled reach total
  | .bytesWindow done | .bytesLoad done _ => 0 ≤ done ∧ done ≤ reach
  | .bytesCall done _ knownTotal => (0 ≤ done ∧ done ≤ reach) ∧ Scaled reach knownTotal
  | .idle | .startDownloaded _ _ | .startWindow _ _ | .startCall _ _ => True

structure Task.Within (d : Task) (unsent : List Progress) (reach : ℤ) : Prop where
  relay : d.relay.Within reach
  queued : Queued reach d.counters.resumedFrom (d.inFlight ++ unsent)
  total : Scaled reach d.counters.total

section Relay

variable {d d' : Task} {unsent : List Progress} {reach : ℤ}

theorem Task.Within.receive (h : d.Within unsent reach) (hstep : d.receive = some d') :
    d'.Within unsent reach ∧ d'.calls = d.calls := by
  have hqueued := h.queued
  unfold Task.receive at hstep
  split at hstep
  · cases hstep
  · rename_i code startOffset totalBytes contentType rest hflight
    cases hstep
    rw [hflight] at hqueued
    exact ⟨⟨hqueued.1, hqueued.2, h.total⟩, rfl⟩
  · rename_i received total rest hflight
    cases hstep
    rw [hflight] at hqueued
    exact ⟨⟨⟨hqueued.1, hqueued.2.1⟩, hqueued.2.2, h.total⟩, rfl⟩

theorem Task.Within.relayStep (h : d.Within unsent reach) {sinceMs : ℤ} (hstep : d.relayStep sinceMs = some d') :
    d'.Within unsent reach ∧ ∀ call ∈ d'.calls, call ∈ d.calls ∨ call.InRange := by
  have hrelay := h.relay
  unfold Task.relayStep at hstep
  split at hstep
  case h_1 =>
    obtain ⟨hwithin, hcalls⟩ := h.receive hstep
    exact ⟨hwithin, fun call hcall => .inl (hcalls ▸ hcall)⟩
  all_goals
    rename_i hat
    rw [hat] at hrelay
  case h_2 =>
    cases hstep
    exact ⟨⟨trivial, h.queued, hrelay⟩, fun call hcall => .inl hcall⟩
  case h_3 =>
    cases hstep
    exact ⟨⟨trivial, h.queued, h.total⟩, fun call hcall => .inl hcall⟩
  case h_4 =>
    cases hstep
    refine ⟨⟨?_, h.queued, h.total⟩, fun call hcall => .inl hcall⟩
    show RelayAt.Within reach (if d.job.callback then _ else _)
    split_ifs <;> trivial
  case h_5 =>
    cases hstep
    refine ⟨⟨trivial, h.queued, h.total⟩, fun call hcall => ?_⟩
    rcases List.mem_append.mp hcall with hcall | hcall
    · exact .inl hcall
    · rw [List.mem_singleton.mp hcall]
      exact .inr trivial
  case h_6 =>
    cases hstep
    exact ⟨⟨hrelay, h.queued, h.total⟩, fun call hcall => .inl hcall⟩
  case h_7 done total =>
    have hat' : RelayAt.Within reach (if d.job.callback then .bytesWindow done else .idle) := by
      split_ifs
      · exact hrelay.1
      · trivial
    by_cases ht : 0 ≤ total
    · simp only [ht, if_true] at hstep
      cases hstep
      exact ⟨⟨hat', h.queued, hrelay.2⟩, fun call hcall => .inl hcall⟩
    · simp only [ht, if_false] at hstep
      cases hstep
      exact ⟨⟨hat', h.queued, h.total⟩, fun call hcall => .inl hcall⟩
  case h_8 =>
    split_ifs at hstep
    · cases hstep
      exact ⟨⟨trivial, h.queued, h.total⟩, fun call hcall => .inl hcall⟩
    · cases hstep
      exact ⟨⟨hrelay, h.queued, h.total⟩, fun call hcall => .inl hcall⟩
  case h_9 =>
    cases hstep
    exact ⟨⟨⟨hrelay, h.total⟩, h.queued, h.total⟩, fun call hcall => .inl hcall⟩
  case h_10 =>
    cases hstep
    refine ⟨⟨trivial, h.queued, h.total⟩, fun call hcall => ?_⟩
    rcases List.mem_append.mp hcall with hcall | hcall
    · exact .inl hcall
    · rw [List.mem_singleton.mp hcall]
      exact .inr (inRange_progress hrelay.1.1 (hrelay.2.mono hrelay.1.2))

end Relay

def WorkerAt.early : WorkerAt → Bool
  | .start | .parents | .measure | .setDownloaded | .setResumedFrom | .openPart | .httpService | .newRequestId
  | .publish _ | .check | .dup | .fetchToFd => true
  | _ => false

def WorkerAt.finalSize : WorkerAt → Option ℤ
  | .setTotal finalSize _ => some finalSize
  | _ => none

structure Aside (d d' : Task) : Prop where
  job : d'.job = d.job
  relay : d'.relay = d.relay
  inFlight : d'.inFlight = d.inFlight
  reply : d'.worker ≠ .reply
  total : d'.counters.total = d.counters.total ∨ d.worker.finalSize = some d'.counters.total
  calls : ∀ call ∈ d'.calls, call ∈ d.calls ∨ call.InRange
  late : d.worker.early = false → d'.worker.early = false ∧ d'.counters.resumedFrom = d.counters.resumedFrom ∧
    d'.resumeFrom = d.resumeFrom

variable {d d' : Task}

theorem inRange_ending (job : Job) (e : Ending) : (e.call job).InRange := by
  cases e <;> trivial

theorem judge_aside (d : Task) (reply : Reply) : (d.judge reply).early = false ∧ d.judge reply ≠ .reply := by
  unfold Task.judge
  split
  · exact ⟨rfl, WorkerAt.noConfusion⟩
  · split_ifs <;> exact ⟨rfl, WorkerAt.noConfusion⟩
  · split_ifs <;> exact ⟨rfl, WorkerAt.noConfusion⟩

theorem workerStep_aside {event : Event} (h : d.workerStep event = some d') (hw : d.worker ≠ .fetchToFd) :
    Aside d d' := by
  have hlater {P : Prop} (hat : d.worker.early = true) (hlate : d.worker.early = false) : P := by
    rw [hat] at hlate
    cases hlate
  unfold Task.workerStep at h
  split at h
  all_goals
    rename_i hat
    cases h
  case h_14 =>
    refine ⟨rfl, rfl, rfl, ?_, .inl rfl, fun call hcall => .inl hcall, hlater (by rw [hat]; rfl)⟩
    simp only [Task.goto]
    split_ifs <;> exact WorkerAt.noConfusion
  case h_17 => exact absurd hat hw
  case h_19 reply =>
    obtain ⟨hlate, hreply⟩ := judge_aside d reply
    exact ⟨rfl, rfl, rfl, hreply, .inl rfl, fun call hcall => .inl hcall, fun _ => ⟨hlate, rfl, rfl⟩⟩
  case h_25 => exact ⟨rfl, rfl, rfl, WorkerAt.noConfusion, .inr (by rw [hat]; rfl), fun call hcall => .inl hcall,
      fun _ => ⟨rfl, rfl, rfl⟩⟩
  case h_30 e =>
    refine ⟨rfl, rfl, rfl, WorkerAt.noConfusion, .inl rfl, fun call hcall => ?_, fun _ => ⟨rfl, rfl, rfl⟩⟩
    rcases List.mem_append.mp hcall with hcall | hcall
    · exact .inl hcall
    · unfold Ending.callback at hcall
      split_ifs at hcall
      · rw [List.mem_singleton.mp hcall]
        exact .inr (inRange_ending d.job e)
      · cases hcall
  all_goals
    first
    | exact ⟨rfl, rfl, rfl, WorkerAt.noConfusion, .inl rfl, fun call hcall => .inl hcall, fun _ => ⟨rfl, rfl, rfl⟩⟩
    | exact ⟨rfl, rfl, rfl, WorkerAt.noConfusion, .inl rfl, fun call hcall => .inl hcall, hlater (by rw [hat]; rfl)⟩

def Site.reach (world : World) (s : Site) : ℤ :=
  match (world.reply s.task.job.url s.task.resumeFrom).announced with
  | none => 0
  | some info => info.startOffset + (world.reply s.task.job.url s.task.resumeFrom).body.length

/-- The total that a response announces goes with its place and its body, and so does the size of the file if
the relay is behind when the worker stores it. -/
def Site.Consistent (world : World) (s : Site) : Move → Prop
  | .fetchToFd => ∀ info ∈ (world.reply s.task.job.url s.task.resumeFrom).announced,
      Scaled (s.reach world) info.totalBytes
  | .go => ∀ finalSize ∈ s.task.worker.finalSize, s.task.Busy → Scaled (s.reach world) finalSize
  | _ => True

instance (d : Task) : Decidable d.Busy := inferInstanceAs (Decidable (d.relay ≠ .idle ∨ d.inFlight ≠ []))

instance (world : World) (s : Site) : ∀ move, Decidable (s.Consistent world move)
  | .fetchToFd => inferInstanceAs (Decidable (∀ info ∈ Reply.announced _, _))
  | .go => inferInstanceAs (Decidable (∀ finalSize ∈ s.task.worker.finalSize, _))
  | .parents _ | .measure | .openPart _ | .httpService _ | .newRequestId _ | .dup _ | .send | .reply
  | .lose _ | .rename _ | .size _ | .discard _ | .relay _ | .cancel => isTrue trivial

/-- Up to the call of `fetchToFd` the relay has heard of nothing. Later what it has to handle is within reach,
or nothing comes any more. -/
inductive Site.Paced (world : World) (s : Site) : Prop
  | early (hearly : s.task.worker.early = true) (hquiet : ¬ s.task.Busy) (hunsent : s.unsent = [])
      (htotal : s.task.counters.total = -1)
  | late (hlate : s.task.worker.early = false) (hwithin : s.task.Within s.unsent (s.reach world))
  | quiet (hlate : s.task.worker.early = false) (hreply : s.task.worker ≠ .reply) (hquiet : ¬ s.task.Busy)

theorem not_busy (h : ¬ d.Busy) : d.relay = .idle ∧ d.inFlight = [] := by
  unfold Task.Busy at h
  constructor
  · by_contra hrelay
    exact h (.inl hrelay)
  · by_contra hflight
    exact h (.inr hflight)

theorem relayStep_busy {sinceMs : ℤ} (h : d.relayStep sinceMs = some d') : d.Busy := by
  cases relayStep_relays h with
  | quiet at' counters inFlight hbusy => exact hbusy
  | call c hbusy => exact hbusy

theorem workerStep_finalSize {event : Event} {finalSize : ℤ} (h : d.workerStep event = some d')
    (hw : d.worker.finalSize = some finalSize) : event = .go ∧ ∀ code message, d.worker ≠ .discard code message := by
  unfold WorkerAt.finalSize at hw
  split at hw
  · rename_i size elapsed hat
    unfold Task.workerStep at h
    rw [hat] at h
    cases event with
    | go => exact ⟨rfl, fun code message hdiscard => by rw [hdiscard] at hat; cases hat⟩
    | _ => cases h
  · cases hw

theorem queued_messages {startOffset total : ℤ} {length : ℕ} (ms : List ℕ) (hstart : 0 ≤ startOffset)
    (hms : ∀ m ∈ ms, m ≤ length) (htotal : Scaled (startOffset + length) total) :
    Queued (startOffset + length) startOffset (ms.map (fun m : ℕ => .bytesReceived m total)) := by
  induction ms with
  | nil => trivial
  | cons m ms ih =>
    have hm := hms m List.mem_cons_self
    exact ⟨⟨by omega, by omega⟩, htotal, ih (fun n hn => hms n (List.mem_cons_of_mem _ hn))⟩

section Paced

variable {world : World} {s t : Site}

theorem fetch_queued {fetched : Fetched}
    (h : HttpService.fetchToFd s.task.job.url s.task.resumeFrom true world (s.fs.data s.ino) = fetched)
    (hrule : s.Consistent world .fetchToFd) (resumedFrom : ℤ) : Queued (s.reach world) resumedFrom fetched.sent := by
  rcases fetchToFd_sent s.task.job.url s.task.resumeFrom world (s.fs.data s.ino) with
    ⟨hsent, -⟩ | ⟨info, ms, ha, hstart, hsent, hms, -⟩
  · rw [← h, hsent]
    trivial
  · have hscaled := hrule info ha
    have hreach : s.reach world = info.startOffset + (world.reply s.task.job.url s.task.resumeFrom).body.length := by
      rw [Site.reach, ha]
    rw [hreach] at hscaled ⊢
    rw [← h, hsent]
    exact ⟨hscaled, queued_messages ms hstart hms hscaled⟩

theorem Site.Paced.relay (h : s.Paced world) {sinceMs : ℤ} {d' : Task}
    (hstep : s.task.relayStep sinceMs = some d') :
    { s with task := d' }.Paced world ∧ ∀ call ∈ d'.calls, call ∈ s.task.calls ∨ call.InRange := by
  have hbusy := relayStep_busy hstep
  cases h with
  | early _ hquiet => exact absurd hbusy hquiet
  | quiet _ _ hquiet => exact absurd hbusy hquiet
  | late hlate hwithin =>
    obtain ⟨hjob, hworker, hresume⟩ := relayStep_worker hstep
    obtain ⟨hwithin', hcalls⟩ := hwithin.relayStep hstep
    have hreach : { s with task := d' }.reach world = s.reach world := by
      unfold Site.reach
      rw [hjob, hresume]
    refine ⟨.late ?_ ?_, hcalls⟩
    · exact (congrArg WorkerAt.early hworker).trans hlate
    · rw [hreach]
      exact hwithin'

theorem Site.Paced.send (h : s.Paced world) {message : Progress} {unsent : List Progress}
    (hunsent : s.unsent = message :: unsent) (hw : s.task.worker = .reply) :
    { s with task := { s.task with inFlight := s.task.inFlight ++ [message] }, unsent }.Paced world := by
  cases h with
  | early hearly =>
    rw [hw] at hearly
    cases hearly
  | quiet _ hreply => exact absurd hw hreply
  | late hlate hwithin =>
    obtain ⟨hrelay, hqueued, htotal⟩ := hwithin
    rw [hunsent] at hqueued
    refine .late hlate ⟨hrelay, ?_, htotal⟩
    rw [List.append_assoc]
    exact hqueued

theorem Site.Paced.fetch (h : s.Paced world) (hw : s.task.worker = .fetchToFd) {fetched : Fetched}
    (hfetch : HttpService.fetchToFd s.task.job.url s.task.resumeFrom true world (s.fs.data s.ino) = fetched)
    (hrule : s.Consistent world .fetchToFd) (fs : Fs) :
    { s with task := s.task.goto .reply, fs, unsent := fetched.sent, status := fetched.status }.Paced world := by
  have hnow : s.task.worker.early = true := by
    rw [hw]
    rfl
  cases h with
  | late hlate => exact absurd hnow (by simp [hlate])
  | quiet hlate => exact absurd hnow (by simp [hlate])
  | early _ hquiet _ htotal =>
    obtain ⟨hidle, hflight⟩ := not_busy hquiet
    refine .late rfl ⟨?_, ?_, ?_⟩
    · show s.task.relay.Within _
      rw [hidle]
      trivial
    · show Queued _ _ (s.task.inFlight ++ fetched.sent)
      rw [hflight]
      exact fetch_queued hfetch hrule _
    · refine .inl ?_
      show s.task.counters.total ≤ 0
      omega

theorem Site.Paced.work (h : s.Paced world) {move : Move} {event : Event} {d' : Task}
    (hstep : s.task.workerStep event = some d') (hw : s.task.worker ≠ .fetchToFd)
    (hgo : event = .go → move = .go ∨ ∃ code message, s.task.worker = .discard code message)
    (hrule : s.Consistent world move) (fs : Fs) (ino : ℕ) : { s with task := d', fs, ino }.Paced world := by
  obtain ⟨hjob, hrelay, hflight, hreply, htotal, -, hlater⟩ := workerStep_aside hstep hw
  have hquiet (hquiet : ¬ s.task.Busy) : ¬ d'.Busy := by
    unfold Task.Busy at hquiet ⊢
    rw [hrelay, hflight]
    exact hquiet
  cases h with
  | early hearly hsilent hunsent hfirst =>
    cases hnext : d'.worker.early with
    | false => exact .quiet hnext hreply (hquiet hsilent)
    | true =>
      refine .early hnext (hquiet hsilent) hunsent ?_
      rcases htotal with htotal | hsize
      · exact htotal.trans hfirst
      · unfold WorkerAt.finalSize at hsize
        split at hsize
        · rename_i hat
          rw [hat] at hearly
          cases hearly
        · cases hsize
  | quiet hlate _ hsilent => exact .quiet (hlater hlate).1 hreply (hquiet hsilent)
  | late hlate hwithin =>
    obtain ⟨hnext, hfrom, hresume⟩ := hlater hlate
    by_cases hbusy : s.task.Busy
    · have hreach : { s with task := d', fs, ino }.reach world = s.reach world := by
        unfold Site.reach
        rw [hjob, hresume]
      refine .late hnext ?_
      rw [hreach]
      refine ⟨?_, ?_, ?_⟩
      · rw [hrelay]
        exact hwithin.relay
      · rw [hflight, hfrom]
        exact hwithin.queued
      · rcases htotal with htotal | hsize
        · rw [htotal]
          exact hwithin.total
        · obtain ⟨rfl, hdiscard⟩ := workerStep_finalSize hstep hsize
          rcases hgo rfl with rfl | ⟨code, message, hat⟩
          · exact hrule _ hsize hbusy
          · exact absurd hat (hdiscard code message)
    · exact .quiet hnext hreply (hquiet hbusy)

structure Site.Ranged (world : World) (s : Site) : Prop where
  paced : s.Paced world
  calls : ∀ call ∈ s.task.calls, call.InRange

theorem Site.Ranged.step {move : Move} (h : s.Ranged world) (hrule : s.Consistent world move)
    (hstep : s.step world move = some t) : t.Ranged world := by
  cases Site.step_steps hstep with
  | cancel =>
    refine ⟨?_, h.calls⟩
    cases h.paced with
    | early hearly hquiet hunsent htotal => exact .early hearly hquiet hunsent htotal
    | late hlate hwithin => exact .late hlate ⟨hwithin.relay, hwithin.queued, hwithin.total⟩
    | quiet hlate hreply hquiet => exact .quiet hlate hreply hquiet
  | relay sinceMs hrelay =>
    obtain ⟨hpaced, hcalls⟩ := h.paced.relay hrelay
    exact ⟨hpaced, fun call hcall => (hcalls call hcall).elim (h.calls call) id⟩
  | send message unsent hunsent hw => exact ⟨h.paced.send hunsent hw, h.calls⟩
  | fetch hw hfetch => exact ⟨h.paced.fetch hw hfetch hrule _, h.calls⟩
  | work move event fs ino hwork hw hgo =>
    refine ⟨h.paced.work hwork hw hgo hrule fs ino, fun call hcall => ?_⟩
    exact ((workerStep_aside hwork hw).calls call hcall).elim (h.calls call) id

theorem progress_in_range (job : Job) (fs : Fs) (world : World) (moves : List Move) (s : Site)
    (hrun : run (Site.step world) { task := { job }, fs } moves = some s)
    (hconsistent : Obeys (Site.step world) (Site.Consistent world) { task := { job }, fs } moves) :
    ∀ call ∈ s.task.calls, call.InRange := by
  have hfirst : Site.Ranged world { task := { job }, fs } := by
    refine ⟨.early rfl (fun hbusy => ?_) rfl rfl, fun call hcall => nomatch hcall⟩
    rcases hbusy with hrelay | hflight
    · exact hrelay rfl
    · exact hflight rfl
  have hranged := run_invariant (fun h hrule hstep => Site.Ranged.step h hrule hstep) hfirst hrun hconsistent
  exact hranged.calls

theorem progress_in_range_resumed :
    let job : Job := ⟨1, ascii "http://h/f", ascii "f", true, by decide, by decide, by decide⟩
    let response := Response.sized 206
      [.of (ascii "Content-Range") (ascii "bytes 1-1/2") rest_range] (ascii "i") rest_sized
    let world := (Env.delivering ⟨response.render, rest_ne, rest_le⟩).world
    let fs := Fs.lone (ascii "f.part") (ascii "h")
    let moves := opens ++ .send :: .send :: List.replicate 11 (.relay 300) ++ closes
    ∃ s, run (Site.step world) { task := { job }, fs } moves = some s ∧
      (∃ bytesPerSecond, ClientCall.progress 2 2 (some 100) bytesPerSecond ∈ s.task.calls) ∧
      ∀ call ∈ s.task.calls, call.InRange := by
  intro job response world fs moves
  have hend : (run (Site.step world) { task := { job }, fs } moves).map (fun s => s.task.calls) =
      some [.started (ascii "http://h/f") 2 1, .progress 2 2 (some 100) 3, .completed (ascii "f") 2 5] := by
    decide +kernel
  obtain ⟨s, hs, hcalls⟩ := Option.map_eq_some_iff.mp hend
  refine ⟨s, hs, ⟨3, ?_⟩, progress_in_range job fs world moves s hs (by decide +kernel)⟩
  rw [hcalls]
  exact List.mem_cons_of_mem _ List.mem_cons_self

theorem progress_out_of_range :
    let job : Job := ⟨1, ascii "http://h/f", ascii "f", true, by decide, by decide, by decide⟩
    let response := Response.sized 206
      [.of (ascii "Content-Range") (ascii "bytes 1-1/1") (by decide +kernel)] (ascii "i") (by decide +kernel)
    let world := (Env.delivering ⟨response.render, by decide +kernel, by decide +kernel⟩).world
    let fs := Fs.lone (ascii "f.part") (ascii "h")
    let moves := opens ++ .send :: .send :: List.replicate 11 (.relay 300) ++ closes
    ∃ s, run (Site.step world) { task := { job }, fs } moves = some s ∧ s.task.state = .completed ∧
      (∃ call ∈ s.task.calls, call = .progress 2 1 (some 200) 3 ∧ ¬ call.InRange) ∧
      Client.filled 200 = some 80 ∧ Client.paint (List.replicate 41 0) 200 = none := by
  intro job response world fs moves
  have hend : (run (Site.step world) { task := { job }, fs } moves).map (fun s => (s.task.state, s.task.calls)) =
      some (.completed,
        [.started (ascii "http://h/f") 1 1, .progress 2 1 (some 200) 3, .completed (ascii "f") 2 5]) := by
    decide +kernel
  obtain ⟨s, hs, hvalues⟩ := Option.map_eq_some_iff.mp hend
  obtain ⟨hstate, hcalls⟩ := Prod.mk.inj hvalues
  refine ⟨s, hs, hstate, ⟨_, ?_, rfl, ?_⟩, by decide, by decide⟩
  · rw [hcalls]
    exact List.mem_cons_of_mem _ List.mem_cons_self
  · rintro ⟨value, hvalue, hrange, -⟩
    cases hvalue
    omega

end Paced

end Tasks

end BinderDownload.DownloadService
