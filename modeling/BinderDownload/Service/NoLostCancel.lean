import BinderDownload.Service.Cancellation

namespace BinderDownload.DownloadService.Cancel

open Text HttpService

variable {targets : ℕ → ℤ} {s t : Shared} {id : ℤ} {a : Action}

theorem Booked.workerStep (h : Booked s) {ok : Bool} (hrule : Timely s (.worker id ok))
    (hstep : workerStep s id ok = some t) : Booked t := by
  unfold Cancel.workerStep at hstep
  cases hw : (s.download id).worker with
  | enqueue | start | finish state =>
    simp only [hw] at hstep
    cases hstep
    exact h.walks rfl (by simp [hw, WorkerAt.stage])
  | prepare =>
    simp only [hw] at hstep
    cases hstep
    exact h.walks rfl (by simp [hw, WorkerAt.stage])
  | newRequestId =>
    simp only [hw] at hstep
    split_ifs at hstep
    · cases hstep
      exact h.issues hw (hrule.1 hw)
    · cases hstep
      exact h.walks rfl (by simp [hw, WorkerAt.stage])
  | publish =>
    simp only [hw] at hstep
    obtain ⟨requestId, -, rfl⟩ := Option.map_eq_some_iff.mp hstep
    exact h.walks rfl (by simp [hw, WorkerAt.stage])
  | check =>
    simp only [hw] at hstep
    cases hstep
    refine h.walks rfl ?_
    split_ifs <;> simp [hw, WorkerAt.stage]
  | call =>
    simp only [hw] at hstep
    split_ifs at hstep
    · cases hstep
      exact h.walks rfl (by simp [hw, WorkerAt.stage])
    · cases hstep
      exact h.walks rfl (by simp [hw, WorkerAt.stage])
  | fetch =>
    simp only [hw] at hstep
    split_ifs at hstep
    cases hstep
    exact h.walks rfl (by simp [hw, WorkerAt.stage])
  | transfer => simp [hw] at hstep
  | reply => simp [hw] at hstep
  | done => simp [hw] at hstep

theorem Booked.callerStep (h : Booked s) (hs : Shook targets s) {i : ℕ} (hstep : callerStep targets s i = some t) :
    Booked t := by
  unfold Cancel.callerStep at hstep
  cases hc : s.caller i with
  | enter =>
    simp only [hc] at hstep
    cases hstep
    exact h.frame (fun _ => rfl) (fun _ => le_rfl) rfl le_rfl rfl rfl (fun _ hr => .inl hr)
  | flag =>
    simp only [hc] at hstep
    cases hstep
    have hflag : Booked (s.setDownload (targets i) { s.download (targets i) with canceled := true }) :=
      h.walks rfl le_rfl
    exact hflag.frame (fun _ => rfl) (fun _ => le_rfl) rfl le_rfl rfl rfl (fun _ hr => .inl hr)
  | load =>
    simp only [hc] at hstep
    cases hstep
    exact h.frame (fun _ => rfl) (fun _ => le_rfl) rfl le_rfl rfl rfl (fun _ hr => .inl hr)
  | send requestId =>
    simp only [hc] at hstep
    cases hstep
    refine h.frame (fun _ => rfl) (fun _ => le_rfl) rfl le_rfl rfl rfl ?_
    intro requestId' hmem
    simp only [Shared.setCaller] at hmem
    split_ifs at hmem with hle
    · rcases List.mem_cons.mp hmem with rfl | hmem
      · rcases hs.sending i _ hc with ⟨hneg, -⟩ | hsome
        · omega
        · exact .inr ⟨_, hsome⟩
      · exact .inl hmem
    · exact .inl hmem
  | finished => simp [hc] at hstep
  | ignored => simp [hc] at hstep

structure Sound (targets : ℕ → ℤ) (s : Shared) : Prop extends Shook targets s, Booked s

theorem Sound.step (h : Sound targets s) (hrule : Timely s a) (hstep : step targets s a = some t) :
    Sound targets t := by
  have hs := h.toShook
  have hb := h.toBooked
  cases a with
  | tick nanoseconds =>
    cases hstep
    refine ⟨⟨hs.known, hs.published, hs.positive, hs.flagged, hs.sending, hs.finished⟩, ?_⟩
    exact hb.frame (fun _ => rfl) (fun _ => le_rfl) rfl (Nat.le_add_right _ _) rfl rfl (fun _ hr => .inl hr)
  | worker id ok =>
    exact ⟨hs.workerStep hb.next (fun hw => hb.unissued id (by rw [hw]; rfl)) hrule hstep,
      hb.workerStep hrule hstep⟩
  | conclude id state =>
    simp only [Cancel.step] at hstep
    split_ifs at hstep with hw
    cases hstep
    exact ⟨hs.moves rfl (hs.walks id (by simp) rfl rfl rfl .inr) rfl rfl rfl,
      hb.walks rfl (by simp [hw.1, WorkerAt.stage])⟩
  | caller i => exact ⟨hs.callerStep hstep, hb.callerStep hs hstep⟩
  | beginRequest id =>
    simp only [Cancel.step] at hstep
    split_ifs at hstep with hw
    obtain ⟨requestId, hr, rfl⟩ := Option.map_eq_some_iff.mp hstep
    exact ⟨hs.moves rfl (hs.walks id (by simp) rfl rfl rfl .inr) rfl rfl rfl, hb.begins hr⟩
  | endRequest id =>
    simp only [Cancel.step] at hstep
    split_ifs at hstep with hw
    obtain ⟨requestId, hr, rfl⟩ := Option.map_eq_some_iff.mp hstep
    exact ⟨hs.moves rfl (hs.walks id (by simp) rfl rfl rfl .inr) rfl rfl rfl, hb.ends hr⟩
  | cancel requestId =>
    simp only [Cancel.step] at hstep
    split_ifs at hstep with hmem
    cases hstep
    exact ⟨hs.cancels rfl rfl rfl rfl, hb.cancels hmem⟩

theorem initial_sound : Sound targets initial := ⟨initial_shook targets, initial_booked⟩

theorem run_sound {actions : List Action} (hrun : run (step targets) initial actions = some s)
    (hrule : Obeys (step targets) Timely initial actions) : Sound targets s :=
  run_invariant Sound.step initial_sound hrun hrule

structure Download.Goes (d d' : Download) : Prop where
  canceled : d.canceled = true → d'.canceled = true
  stopped : d.canceled = true → d'.Passed → d.Passed
  requestId : ∀ requestId, d.transfer.requestId = some requestId → d'.transfer.requestId = some requestId
  request : ∀ o, d'.transfer.ended = true → d'.transfer.request = some o → d.transfer.request = some o

theorem Download.Goes.refl (d : Download) : d.Goes d :=
  ⟨fun hc => hc, fun _ hp => hp, fun _ hr => hr, fun _ _ ho => ho⟩

theorem Download.Goes.walks {d d' : Download} (hcanceled : d'.canceled = d.canceled)
    (hpassed : d.canceled = true → d'.Passed → d.Passed) (htransfer : d'.transfer = d.transfer) : d.Goes d' := by
  constructor
  · intro hc
    rw [hcanceled, hc]
  · exact hpassed
  · intro requestId hr
    rw [htransfer, hr]
  · intro o _ ho
    rw [← htransfer, ho]

theorem Download.Passed.back {d d' : Download} (h : d'.Passed) (hworker : d'.worker ≠ .call)
    (hfetched : d'.fetched = d.fetched) : d.Passed := by
  right
  rw [← hfetched]
  exact h.resolve_left hworker

theorem goes_update {d : Download} (hdownload : t.download = Function.update s.download id d)
    (hd : (s.download id).Goes d) (id' : ℤ) : (s.download id').Goes (t.download id') := by
  rw [hdownload]
  by_cases hid : id' = id
  · subst hid
    rw [Function.update_self]
    exact hd
  · rw [Function.update_of_ne hid]
    exact .refl _

theorem workerStep_goes (hb : Booked s) {ok : Bool} (hstep : workerStep s id ok = some t) (id' : ℤ) :
    (s.download id').Goes (t.download id') := by
  unfold workerStep at hstep
  cases hw : (s.download id).worker with
  | enqueue | start | finish state =>
    simp only [hw] at hstep
    cases hstep
    refine goes_update rfl ?_ id'
    exact .walks rfl (fun _ hp => hp.back (by simp) rfl) rfl
  | prepare =>
    simp only [hw] at hstep
    cases hstep
    refine goes_update rfl ?_ id'
    exact .walks rfl (fun _ hp => hp.back (by cases ok <;> simp) rfl) rfl
  | newRequestId =>
    have hnone := hb.unissued id (by rw [hw]; rfl)
    simp only [hw] at hstep
    split_ifs at hstep
    · cases hstep
      refine goes_update rfl ?_ id'
      refine ⟨fun hc => hc, ?_, ?_, ?_⟩
      · exact fun _ hp => hp.back (by simp) rfl
      · simp [hnone]
      · simp
    · cases hstep
      refine goes_update rfl ?_ id'
      exact .walks rfl (fun _ hp => hp.back (by simp) rfl) rfl
  | publish =>
    simp only [hw] at hstep
    obtain ⟨requestId, -, rfl⟩ := Option.map_eq_some_iff.mp hstep
    refine goes_update rfl ?_ id'
    exact .walks rfl (fun _ hp => hp.back (by simp) rfl) rfl
  | check =>
    simp only [hw] at hstep
    cases hstep
    refine goes_update rfl ?_ id'
    refine .walks rfl ?_ rfl
    intro hc hp
    exact hp.back (by simp [hc]) rfl
  | call =>
    simp only [hw] at hstep
    split_ifs at hstep
    · cases hstep
      refine goes_update rfl ?_ id'
      exact .walks rfl (fun _ _ => .inl hw) rfl
    · cases hstep
      refine goes_update rfl ?_ id'
      exact .walks rfl (fun _ hp => hp.back (by simp) rfl) rfl
  | fetch =>
    simp only [hw] at hstep
    split_ifs at hstep
    cases hstep
    refine goes_update rfl ?_ id'
    exact .walks rfl (fun _ hp => hp.back (by simp) rfl) rfl
  | transfer => simp [hw] at hstep
  | reply => simp [hw] at hstep
  | done => simp [hw] at hstep

theorem callerStep_goes {i : ℕ} (hstep : callerStep targets s i = some t) (id : ℤ) :
    (s.download id).Goes (t.download id) := by
  unfold callerStep at hstep
  cases hc : s.caller i with
  | flag =>
    simp only [hc] at hstep
    cases hstep
    refine goes_update rfl ?_ id
    exact ⟨fun _ => rfl, fun _ hp => hp, fun _ hr => hr, fun _ _ ho => ho⟩
  | enter | load | send requestId =>
    simp only [hc] at hstep
    cases hstep
    exact .refl _
  | finished => simp [hc] at hstep
  | ignored => simp [hc] at hstep

theorem step_goes (hb : Booked s) (hstep : step targets s a = some t) (id : ℤ) :
    (s.download id).Goes (t.download id) := by
  cases a with
  | tick nanoseconds =>
    cases hstep
    exact .refl _
  | worker id' ok => exact workerStep_goes hb hstep id
  | conclude id' state =>
    simp only [Cancel.step] at hstep
    split_ifs at hstep
    cases hstep
    refine goes_update rfl ?_ id
    exact .walks rfl (fun _ hp => hp.back (by simp) rfl) rfl
  | caller i => exact callerStep_goes hstep id
  | beginRequest id' =>
    simp only [Cancel.step] at hstep
    split_ifs at hstep with hw
    obtain ⟨requestId, hr, rfl⟩ := Option.map_eq_some_iff.mp hstep
    obtain ⟨-, hopen⟩ := hb.unbegun id' (by rw [hw]; decide)
    refine goes_update rfl ?_ id
    refine ⟨fun hc => hc, ?_, fun _ hr => hr, ?_⟩
    · exact fun _ hp => hp.back (by simp) rfl
    · simp [hopen]
  | endRequest id' =>
    simp only [Cancel.step] at hstep
    split_ifs at hstep with hw
    obtain ⟨requestId, hr, rfl⟩ := Option.map_eq_some_iff.mp hstep
    refine goes_update rfl ?_ id
    exact ⟨fun hc => hc, fun _ hp => hp.back (by simp) rfl, fun _ hr => hr, fun _ _ ho => ho⟩
  | cancel requestId =>
    simp only [Cancel.step] at hstep
    split_ifs at hstep
    cases hstep
    exact .refl _

theorem workerStep_requests {ok : Bool} (hstep : workerStep s id ok = some t) :
    t.handled = s.handled ∧ t.requests = s.requests := by
  unfold workerStep at hstep
  cases hw : (s.download id).worker with
  | enqueue | start | prepare | check | finish state =>
    simp only [hw] at hstep
    cases hstep
    exact ⟨rfl, rfl⟩
  | newRequestId | call | fetch =>
    simp only [hw] at hstep
    split_ifs at hstep
    all_goals cases hstep
    all_goals exact ⟨rfl, rfl⟩
  | publish =>
    simp only [hw] at hstep
    obtain ⟨requestId, -, rfl⟩ := Option.map_eq_some_iff.mp hstep
    exact ⟨rfl, rfl⟩
  | transfer | reply | done => simp [hw] at hstep

theorem callerStep_requests {i : ℕ} (hstep : callerStep targets s i = some t) :
    t.handled = s.handled ∧ t.requests = s.requests := by
  unfold callerStep at hstep
  cases hc : s.caller i with
  | enter | flag | load | send requestId =>
    simp only [hc] at hstep
    cases hstep
    exact ⟨rfl, rfl⟩
  | finished | ignored => simp [hc] at hstep

theorem step_lasts (hstep : step targets s a = some t) :
    (∀ requestId ∈ s.handled, requestId ∈ t.handled) ∧
      ∀ o < s.requests.fresh, (s.requests.object o).canceled = true → (t.requests.object o).canceled = true := by
  cases a with
  | tick nanoseconds =>
    cases hstep
    exact ⟨fun _ hr => hr, fun _ _ hc => hc⟩
  | worker id ok =>
    obtain ⟨hhandled, hrequests⟩ := workerStep_requests hstep
    rw [hhandled, hrequests]
    exact ⟨fun _ hr => hr, fun _ _ hc => hc⟩
  | conclude id state =>
    simp only [Cancel.step] at hstep
    split_ifs at hstep
    cases hstep
    exact ⟨fun _ hr => hr, fun _ _ hc => hc⟩
  | caller i =>
    obtain ⟨hhandled, hrequests⟩ := callerStep_requests hstep
    rw [hhandled, hrequests]
    exact ⟨fun _ hr => hr, fun _ _ hc => hc⟩
  | beginRequest id =>
    simp only [Cancel.step] at hstep
    split_ifs at hstep
    obtain ⟨requestId, -, rfl⟩ := Option.map_eq_some_iff.mp hstep
    exact ⟨fun _ hr => hr, fun _ hused hc => Requests.beginRequest_canceled hused hc⟩
  | endRequest id =>
    simp only [Cancel.step] at hstep
    split_ifs at hstep
    obtain ⟨requestId, -, rfl⟩ := Option.map_eq_some_iff.mp hstep
    exact ⟨fun _ hr => hr, fun _ _ hc => hc⟩
  | cancel requestId =>
    simp only [Cancel.step] at hstep
    split_ifs at hstep
    cases hstep
    exact ⟨fun _ hr => List.mem_cons_of_mem _ hr, fun _ hused hc => Requests.cancel_canceled hused hc⟩

/-- A `cancel` that was handled is in the object of its entry. -/
def Marked (s : Shared) : Prop :=
  ∀ requestId o, s.requests.mRequests requestId = some o → requestId ∈ s.handled → (s.requests.object o).canceled = true

theorem initial_marked : Marked initial := by
  intro requestId o ho
  cases ho

theorem Marked.frame (h : Marked s) (hhandled : t.handled = s.handled) (hrequests : t.requests = s.requests) :
    Marked t := by
  rw [Marked, hhandled, hrequests]
  exact h

theorem Marked.begins (h : Marked s) {requestId : ℤ}
    (hkept : requestId ∈ s.handled → (s.requests.mRequests requestId).isSome) {requests : Requests}
    (hrequests : requests = (s.requests.beginRequest s.now requestId).2) (ht : t.requests = requests)
    (hhandled : t.handled = s.handled) : Marked t := by
  intro requestId' o ho hmem
  rw [ht, hrequests] at ho ⊢
  rw [hhandled] at hmem
  by_cases hid : requestId' = requestId
  · subst hid
    obtain ⟨o', ho'⟩ := Option.isSome_iff_exists.mp (hkept hmem)
    obtain ⟨hsame, hcanceled⟩ := @Requests.beginRequest_adopts s.requests s.now o' requestId' ho'
    rw [Requests.beginRequest_entry.1, hsame] at ho
    cases ho
    rw [hcanceled]
    exact h requestId' o ho' hmem
  · rw [Requests.beginRequest_other_iff hid] at ho
    rw [(Requests.beginRequest_other hid ho).2]
    exact h requestId' o ho hmem

theorem Marked.ends (h : Marked s) {requestId : ℤ} (ht : t.requests = s.requests.endRequest requestId)
    (hhandled : t.handled = s.handled) : Marked t := by
  intro requestId' o ho hmem
  rw [ht] at ho ⊢
  rw [hhandled] at hmem
  by_cases hid : requestId' = requestId
  · rw [hid, Requests.endRequest_self] at ho
    cases ho
  · rw [Requests.endRequest_other hid] at ho
    exact h requestId' o ho hmem

theorem Marked.cancels (h : Marked s) {requestId : ℤ} (ht : t.requests = s.requests.cancel s.now requestId)
    (hhandled : t.handled = requestId :: s.handled) : Marked t := by
  intro requestId' o ho hmem
  rw [ht] at ho ⊢
  rw [hhandled] at hmem
  by_cases hid : requestId' = requestId
  · subst hid
    exact Requests.cancel_marks ho
  · have hold := Requests.cancel_within hid ho
    rw [(Requests.cancel_other hid hold).1]
    exact h requestId' o hold ((List.mem_cons.mp hmem).resolve_left hid)

theorem Marked.step (h : Marked s) (hkept : Kept s a) (hstep : step targets s a = some t) : Marked t := by
  cases a with
  | tick nanoseconds =>
    cases hstep
    exact h.frame rfl rfl
  | worker id ok =>
    obtain ⟨hhandled, hrequests⟩ := workerStep_requests hstep
    exact h.frame hhandled hrequests
  | conclude id state =>
    simp only [Cancel.step] at hstep
    split_ifs at hstep
    cases hstep
    exact h.frame rfl rfl
  | caller i =>
    obtain ⟨hhandled, hrequests⟩ := callerStep_requests hstep
    exact h.frame hhandled hrequests
  | beginRequest id =>
    simp only [Cancel.step] at hstep
    split_ifs at hstep
    obtain ⟨requestId, hr, rfl⟩ := Option.map_eq_some_iff.mp hstep
    exact h.begins (hkept requestId hr) rfl rfl rfl
  | endRequest id =>
    simp only [Cancel.step] at hstep
    split_ifs at hstep
    obtain ⟨requestId, hr, rfl⟩ := Option.map_eq_some_iff.mp hstep
    exact h.ends rfl rfl
  | cancel requestId =>
    simp only [Cancel.step] at hstep
    split_ifs at hstep
    cases hstep
    exact h.cancels rfl rfl

structure Caught (s : Shared) (id requestId : ℤ) : Prop where
  issued : (s.download id).transfer.requestId = some requestId
  handled : requestId ∈ s.handled
  canceled : ∀ o, (s.download id).transfer.request = some o → (s.requests.object o).canceled = true

theorem Sound.caught (h : Sound targets s) (hm : Marked s) {requestId : ℤ}
    (hr : (s.download id).transfer.requestId = some requestId) (hmem : requestId ∈ s.handled)
    (hended : (s.download id).transfer.ended = false) : Caught s id requestId := by
  refine ⟨hr, hmem, fun o ho => ?_⟩
  obtain ⟨requestId', hr', hentry, -⟩ := h.polled id o ho hended
  rw [hr] at hr'
  cases hr'
  exact hm requestId o hentry hmem

theorem step_caught {requestId : ℤ} (h : Sound targets s ∧ Marked s ∧ Caught s id requestId)
    (hrule : Timely s a ∧ Kept s a) (hstep : step targets s a = some t) :
    Sound targets t ∧ Marked t ∧ Caught t id requestId := by
  obtain ⟨h, hm, hc⟩ := h
  have hnext := h.step hrule.1 hstep
  have hmarked := hm.step hrule.2 hstep
  refine ⟨hnext, hmarked, ?_⟩
  have hgoes := step_goes h.toBooked hstep id
  obtain ⟨hhandled, hlasts⟩ := step_lasts hstep
  have hr := hgoes.requestId _ hc.issued
  have hmem := hhandled _ hc.handled
  cases hended : (t.download id).transfer.ended with
  | false => exact hnext.caught hmarked hr hmem hended
  | true =>
    refine ⟨hr, hmem, fun o ho => ?_⟩
    have hold := hgoes.request o hended ho
    exact hlasts o (h.used id o hold) (hc.canceled o hold)

structure Stopped (s : Shared) (id : ℤ) : Prop where
  canceled : (s.download id).canceled = true
  passed : ¬ (s.download id).Passed

theorem step_stopped (h : Sound targets s ∧ Stopped s id) (hrule : Timely s a)
    (hstep : step targets s a = some t) : Sound targets t ∧ Stopped t id := by
  obtain ⟨h, hc, hp⟩ := h
  have hgoes := step_goes h.toBooked hstep id
  exact ⟨h.step hrule hstep, hgoes.canceled hc, fun hp' => hp (hgoes.stopped hc hp')⟩

/-- Where a `cancel` was handled before the transfer of its request ended, the object that the transfer polls has the
flag in every later state. -/
def Heard (targets : ℕ → ℤ) (actions : List Action) : Prop :=
  ∀ before later s t, before ++ later <+: actions → run (step targets) initial before = some s →
    run (step targets) s later = some t →
    ∀ id requestId, (s.download id).transfer.requestId = some requestId → requestId ∈ s.handled →
      (s.download id).transfer.ended = false →
      ∀ o, (t.download id).transfer.request = some o → (t.requests.object o).canceled = true

theorem heard_of_kept {actions : List Action} (hrule : Obeys (step targets) Timely initial actions)
    (hkept : Obeys (step targets) Kept initial actions) : Heard targets actions := by
  rintro before later s t ⟨rest, rfl⟩ hrun hlater id requestId hr hmem hended o ho
  rw [List.append_assoc] at hrule hkept
  obtain ⟨hrule, hrule'⟩ := hrule.split hrun
  obtain ⟨hkept, hkept'⟩ := hkept.split hrun
  have hsound := run_sound hrun hrule
  have hmarked : Marked s := run_invariant Marked.step initial_marked hrun hkept
  have hcaught := hsound.caught hmarked hr hmem hended
  have hboth := (hrule'.split hlater).1.both (hkept'.split hlater).1
  exact (run_invariant step_caught ⟨hsound, hmarked, hcaught⟩ hlater hboth).2.2.canceled o ho

theorem beginRequest_lost (h : Sound targets s) (hkept : ¬Kept s (.beginRequest id))
    (hstep : step targets s (.beginRequest id) = some t) :
    ∃ requestId o, (s.download id).transfer.requestId = some requestId ∧ requestId ∈ s.handled ∧
      (s.download id).transfer.ended = false ∧ (t.download id).transfer.request = some o ∧
      (t.requests.object o).canceled = false := by
  simp only [Kept, not_forall] at hkept
  obtain ⟨requestId, hr, hmem, hnone⟩ := hkept
  have hgone : s.requests.mRequests requestId = none := Option.not_isSome_iff_eq_none.mp hnone
  simp only [Cancel.step, hr, Option.map_some] at hstep
  split_ifs at hstep with hw
  cases hstep
  obtain ⟨-, hopen⟩ := h.unbegun id (by rw [hw]; decide)
  refine ⟨requestId, (s.requests.beginRequest s.now requestId).1, hr, hmem, hopen, ?_, ?_⟩
  · rw [Shared.setDownload_self]
  · simp [Requests.beginRequest, hgone, Requests.setObject]

theorem kept_of_heard {actions : List Action} (hrun : run (step targets) initial actions = some s)
    (hrule : Obeys (step targets) Timely initial actions) (hheard : Heard targets actions) :
    Obeys (step targets) Kept initial actions := by
  by_contra hnot
  obtain ⟨before, a, rest, u, rfl, hbefore, -, hbreak⟩ := Obeys.breaks hrun hnot
  have hsound := run_sound hbefore (hrule.split hbefore).1
  rw [run_append hbefore] at hrun
  obtain ⟨t, hstep, -⟩ := run_cons hrun
  cases a with
  | beginRequest id =>
    obtain ⟨requestId, o, hr, hmem, hopen, ho, hcanceled⟩ := beginRequest_lost hsound hbreak hstep
    have hfront : before ++ [.beginRequest id] <+: before ++ .beginRequest id :: rest := ⟨rest, by simp⟩
    have hlater : run (step targets) u [.beginRequest id] = some t := by rw [run, hstep]; rfl
    have htrue := hheard _ _ u t hfront hbefore hlater id requestId hr hmem hopen o ho
    rw [hcanceled] at htrue
    cases htrue
  | _ => exact hbreak trivial

theorem Sound.kept (h : Sound targets s) (hprompt : Prompt s a) (hstep : Cancel.step targets s a = some t) :
    Kept s a := by
  cases a with
  | beginRequest id =>
    intro requestId hr hmem
    simp only [Cancel.step] at hstep
    split_ifs at hstep with hw
    obtain ⟨hnone, hopen⟩ := h.unbegun id (by rw [hw]; decide)
    rcases h.waiting id requestId hr hnone hopen hmem with ⟨o, ho⟩ | hlate
    · rw [ho]
      rfl
    · unfold Prompt at hprompt
      unfold millisSince kStaleRequestMs at hlate
      omega
  | _ => trivial

theorem kept_of_prompt {actions : List Action} (hrun : run (step targets) initial actions = some s)
    (hrule : Obeys (step targets) Timely initial actions) (hprompt : Obeys (step targets) Prompt initial actions) :
    Obeys (step targets) Kept initial actions :=
  Obeys.implied (fun hsound hboth hstep => hsound.step hboth.1 hstep)
    (fun hsound hboth hstep => hsound.kept hboth.2 hstep) initial_sound hrun (hrule.both hprompt)

theorem cancel_not_lost (targets : ℕ → ℤ) (actions : List Action) (s : Shared)
    (hrun : run (step targets) initial actions = some s) (hrule : Obeys (step targets) Timely initial actions) :
    (∀ i, s.caller i = .finished →
      (∀ later t, run (step targets) s later = some t → Obeys (step targets) Timely s later →
        (t.download (targets i)).fetched = false) ∨
      ∃ requestId, (s.download (targets i)).transfer.requestId = some requestId ∧
        (∀ id, (s.download id).transfer.requestId = some requestId → id = targets i) ∧
        (requestId ∈ s.inFlight ∨ requestId ∈ s.handled)) ∧
      (Heard targets actions ↔ Obeys (step targets) Kept initial actions) ∧
      (Obeys (step targets) Prompt initial actions → Obeys (step targets) Kept initial actions) := by
  have hsound := run_sound hrun hrule
  refine ⟨?_, ⟨kept_of_heard hrun hrule, heard_of_kept hrule⟩, kept_of_prompt hrun hrule⟩
  intro i hi
  rcases hsound.finished i hi with hpassed | ⟨requestId, hr, hmessage⟩
  · left
    intro later t hlater htimely
    have hstopped : Stopped s (targets i) := ⟨hsound.flagged i (by rw [hi]; trivial), hpassed⟩
    obtain ⟨-, -, hnever⟩ := run_invariant step_stopped ⟨hsound, hstopped⟩ hlater htimely
    simpa using fun hf => hnever (.inr hf)
  · exact .inr ⟨requestId, hr, fun id hid => hsound.unique _ _ _ hid hr, hmessage⟩

def taskOf (i : ℕ) : ℤ := i + 1

def early : List Action :=
  List.replicate 6 (.worker 1 true) ++ List.replicate 4 (.caller 0) ++ [.cancel 1]

theorem cancel_not_lost_early :
    let later : List Action := [.worker 1 true, .tick 1000000000, .beginRequest 1]
    ∃ s t, run (step taskOf) initial early = some s ∧ run (step taskOf) s later = some t ∧
      s.caller 0 = .finished ∧ (t.download 1).transfer.request = some 0 ∧ (t.requests.object 0).canceled = true := by
  intro later
  have hheld := cancel_not_lost taskOf (early ++ later) _ rfl (by decide +kernel)
  have hheard : Heard taskOf (early ++ later) := hheld.2.1.mpr (hheld.2.2 (by decide +kernel))
  refine ⟨_, _, rfl, rfl, by decide +kernel, by decide +kernel, ?_⟩
  exact hheard early later _ _ (List.prefix_refl _) rfl rfl 1 1 (by decide +kernel) (by decide +kernel)
    (by decide +kernel) 0 (by decide +kernel)

theorem cancel_lost :
    let later : List Action := .worker 1 true :: List.replicate 5 (.worker 2 true) ++ List.replicate 4 (.caller 1) ++
      [.tick (61 * 1000000000), .cancel 2, .beginRequest 1]
    Obeys (step taskOf) Timely initial (early ++ later) ∧
      ∃ s t, run (step taskOf) initial early = some s ∧ run (step taskOf) s later = some t ∧
        s.caller 0 = .finished ∧ (s.download 1).transfer.requestId = some 1 ∧ 1 ∈ s.handled ∧
        (t.download 1).transfer.request = some 2 ∧ (t.download 1).transfer.ended = false ∧
        (t.requests.object 2).canceled = false := by
  intro later
  refine ⟨by decide +kernel, _, _, rfl, rfl, ?_, ?_, ?_, ?_, ?_, ?_⟩
  all_goals decide +kernel

end BinderDownload.DownloadService.Cancel
