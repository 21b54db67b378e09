import BinderDownload.Service.Handshake

namespace BinderDownload.DownloadService.Cancel

open Text HttpService

def WorkerAt.stage : WorkerAt → ℕ
  | .enqueue | .start | .prepare | .newRequestId => 0
  | .publish | .check | .call | .fetch => 1
  | .transfer | .reply | .finish _ | .done => 2

def Shared.Waits (s : Shared) (id requestId : ℤ) : Prop :=
  (∃ o, s.requests.mRequests requestId = some o) ∨
    kStaleRequestMs < millisSince s.now (s.download id).transfer.issuedAt

def Shared.Polls (s : Shared) (id : ℤ) (o : ℕ) : Prop :=
  ∃ requestId, (s.download id).transfer.requestId = some requestId ∧ s.requests.mRequests requestId = some o ∧
    (s.requests.object o).running = true

structure Issued (s : Shared) : Prop where
  next : 0 < s.mNextId
  unissued : ∀ id, (s.download id).worker.stage = 0 → (s.download id).transfer.requestId = none
  unbegun : ∀ id, (s.download id).worker.stage ≤ 1 →
    (s.download id).transfer.request = none ∧ (s.download id).transfer.ended = false
  issued : ∀ id requestId, (s.download id).transfer.requestId = some requestId →
    requestId < s.mNextId ∧ (s.download id).transfer.issuedAt ≤ s.now
  unique : ∀ id id' requestId, (s.download id).transfer.requestId = some requestId →
    (s.download id').transfer.requestId = some requestId → id = id'
  asked : ∀ requestId, requestId ∈ s.inFlight ∨ requestId ∈ s.handled →
    ∃ id, (s.download id).transfer.requestId = some requestId

structure Booked (s : Shared) : Prop extends Issued s where
  entered : ∀ requestId o, s.requests.mRequests requestId = some o →
    ∃ id, (s.download id).transfer.requestId = some requestId ∧
      (s.download id).transfer.issuedAt ≤ (s.requests.object o).created
  used : ∀ id o, (s.download id).transfer.request = some o → o < s.requests.fresh
  polled : ∀ id o, (s.download id).transfer.request = some o → (s.download id).transfer.ended = false → s.Polls id o
  waiting : ∀ id requestId, (s.download id).transfer.requestId = some requestId →
    (s.download id).transfer.request = none → (s.download id).transfer.ended = false → requestId ∈ s.handled →
    s.Waits id requestId

theorem initial_booked : Booked initial := by
  refine ⟨⟨?_, ?_, ?_, ?_, ?_, ?_⟩, ?_, ?_, ?_, ?_⟩
  all_goals simp [initial, Requests.empty]

variable {targets : ℕ → ℤ} {s t : Shared} {id : ℤ} {a : Action}

theorem millisSince_mono {now now' time : ℕ} (h : now ≤ now') : millisSince now time ≤ millisSince now' time :=
  Nat.div_le_div_right (by omega)

theorem Issued.keeps (h : Issued s)
    (hid : ∀ id, (t.download id).transfer.requestId = (s.download id).transfer.requestId)
    (htime : ∀ id, (t.download id).transfer.issuedAt = (s.download id).transfer.issuedAt)
    (hstage : ∀ id, (s.download id).worker.stage ≤ (t.download id).worker.stage)
    (hbegun : ∀ id, (t.download id).worker.stage ≤ 1 → (t.download id).transfer = (s.download id).transfer)
    (hnext : t.mNextId = s.mNextId) (hnow : s.now ≤ t.now)
    (hasked : ∀ requestId, requestId ∈ t.inFlight ∨ requestId ∈ t.handled →
      (requestId ∈ s.inFlight ∨ requestId ∈ s.handled) ∨
        ∃ id, (s.download id).transfer.requestId = some requestId) : Issued t := by
  constructor
  · rw [hnext]
    exact h.next
  · intro id h0
    rw [hid]
    have := hstage id
    exact h.unissued id (by omega)
  · intro id h1
    rw [hbegun id h1]
    exact h.unbegun id ((hstage id).trans h1)
  · intro id requestId hr
    rw [hid] at hr
    rw [htime, hnext]
    exact ⟨(h.issued id requestId hr).1, (h.issued id requestId hr).2.trans hnow⟩
  · intro id id' requestId hr hr'
    rw [hid] at hr hr'
    exact h.unique id id' requestId hr hr'
  · intro requestId hmessage
    simp only [hid]
    rcases hasked requestId hmessage with hmem | hsome
    · exact h.asked requestId hmem
    · exact hsome

theorem Booked.frame (h : Booked s) (htransfer : ∀ id, (t.download id).transfer = (s.download id).transfer)
    (hstage : ∀ id, (s.download id).worker.stage ≤ (t.download id).worker.stage) (hnext : t.mNextId = s.mNextId)
    (hnow : s.now ≤ t.now) (hhandled : t.handled = s.handled) (hrequests : t.requests = s.requests)
    (hflight : ∀ requestId ∈ t.inFlight, requestId ∈ s.inFlight ∨
      ∃ id, (s.download id).transfer.requestId = some requestId) : Booked t := by
  have hissued : Issued t := by
    refine h.keeps (fun id => by rw [htransfer]) (fun id => by rw [htransfer]) hstage (fun id _ => htransfer id) hnext
      hnow ?_
    rintro requestId (hmem | hmem)
    · exact (hflight requestId hmem).imp_left .inl
    · rw [hhandled] at hmem
      exact .inl (.inr hmem)
  refine ⟨hissued, ?_, ?_, ?_, ?_⟩
  · intro requestId o ho
    simp only [htransfer]
    rw [hrequests] at ho ⊢
    exact h.entered requestId o ho
  · intro id o ho
    rw [htransfer] at ho
    rw [hrequests]
    exact h.used id o ho
  · intro id o ho hended
    rw [htransfer] at ho hended
    unfold Shared.Polls
    rw [htransfer, hrequests]
    exact h.polled id o ho hended
  · intro id requestId hr hnone hended hmem
    rw [htransfer] at hr hnone hended
    rw [hhandled] at hmem
    unfold Shared.Waits
    rw [htransfer, hrequests]
    exact (h.waiting id requestId hr hnone hended hmem).imp_right (fun hlate => hlate.trans_le (millisSince_mono hnow))

theorem Booked.walks (h : Booked s) {d : Download} (htransfer : d.transfer = (s.download id).transfer)
    (hstage : (s.download id).worker.stage ≤ d.worker.stage) : Booked (s.setDownload id d) := by
  refine h.frame ?_ ?_ rfl le_rfl rfl rfl (fun _ hr => .inl hr)
  · exact (Function.forall_update_iff s.download (fun id' d' => d'.transfer = (s.download id').transfer)).mpr
      ⟨htransfer, fun _ _ => rfl⟩
  · exact (Function.forall_update_iff s.download (fun id' d' => (s.download id').worker.stage ≤ d'.worker.stage)).mpr
      ⟨hstage, fun _ _ => le_rfl⟩

theorem Issued.issues (h : Issued s) (hnone : (s.download id).transfer.requestId = none)
    (hself : t.download id = { s.download id with
      worker := .publish, transfer := { requestId := some (s.mNextId : ℤ), issuedAt := s.now } })
    (hother : ∀ id', id' ≠ id → t.download id' = s.download id') (hnext : t.mNextId = s.mNextId + 1)
    (hnow : t.now = s.now) (hflight : t.inFlight = s.inFlight) (hhandled : t.handled = s.handled) : Issued t := by
  have hnew (id' : ℤ) : (s.download id').transfer.requestId ≠ some (s.mNextId : ℤ) := by
    intro hr
    exact absurd (h.issued id' _ hr).1 (lt_irrefl _)
  refine ⟨by omega, ?_, ?_, ?_, ?_, ?_⟩
  · intro id' hstage
    by_cases hid : id' = id
    · simp [hid, hself, WorkerAt.stage] at hstage
    · rw [hother id' hid] at hstage ⊢
      exact h.unissued id' hstage
  · intro id' hstage
    by_cases hid : id' = id
    · simp [hid, hself]
    · rw [hother id' hid] at hstage ⊢
      exact h.unbegun id' hstage
  · intro id' requestId hr
    rw [hnow, hnext]
    by_cases hid : id' = id
    · simp only [hid, hself, Option.some.injEq] at hr ⊢
      omega
    · rw [hother id' hid] at hr ⊢
      have := h.issued id' requestId hr
      omega
  · intro id1 id2 requestId hr1 hr2
    by_cases h1 : id1 = id <;> by_cases h2 : id2 = id
    · rw [h1, h2]
    · rw [h1, hself] at hr1
      rw [hother id2 h2, ← hr1] at hr2
      exact absurd hr2 (hnew id2)
    · rw [h2, hself] at hr2
      rw [hother id1 h1, ← hr2] at hr1
      exact absurd hr1 (hnew id1)
    · rw [hother id1 h1] at hr1
      rw [hother id2 h2] at hr2
      exact h.unique id1 id2 requestId hr1 hr2
  · intro requestId hmessage
    rw [hflight, hhandled] at hmessage
    obtain ⟨id', hr⟩ := h.asked requestId hmessage
    have hid : id' ≠ id := by
      rintro rfl
      simp [hnone] at hr
    exact ⟨id', by rw [hother id' hid]; exact hr⟩

theorem Booked.issues (h : Booked s) (hw : (s.download id).worker = .newRequestId) (hfits : (s.mNextId : ℤ) < 2 ^ 31) :
    Booked ({ s with mNextId := s.mNextId + 1 }.setDownload id { s.download id with
      worker := .publish, transfer := { requestId := some (toInt32 s.mNextId), issuedAt := s.now } }) := by
  have hnone : (s.download id).transfer.requestId = none := h.unissued id (by rw [hw]; rfl)
  generalize ht : ({ s with mNextId := s.mNextId + 1 }.setDownload id { s.download id with
      worker := .publish, transfer := { requestId := some (toInt32 s.mNextId), issuedAt := s.now } }) = t
  have hself : t.download id = { s.download id with
      worker := .publish, transfer := { requestId := some (s.mNextId : ℤ), issuedAt := s.now } } := by
    simp [← ht, toInt32_small (by omega) hfits]
  have hother (id' : ℤ) (hid : id' ≠ id) : t.download id' = s.download id' := by
    simp [← ht, hid]
  obtain ⟨hflight, hhandled, hrequests, hnow, hnext⟩ : t.inFlight = s.inFlight ∧ t.handled = s.handled ∧
      t.requests = s.requests ∧ t.now = s.now ∧ t.mNextId = s.mNextId + 1 := by
    simp [← ht]
  clear ht
  refine ⟨h.toIssued.issues hnone hself hother hnext hnow hflight hhandled, ?_, ?_, ?_, ?_⟩
  · intro requestId o ho
    rw [hrequests] at ho ⊢
    obtain ⟨id', hr, hle⟩ := h.entered requestId o ho
    have hid : id' ≠ id := by
      rintro rfl
      simp [hnone] at hr
    exact ⟨id', by rw [hother id' hid]; exact ⟨hr, hle⟩⟩
  · intro id' o ho
    rw [hrequests]
    by_cases hid : id' = id
    · simp [hid, hself] at ho
    · rw [hother id' hid] at ho
      exact h.used id' o ho
  · intro id' o ho hended
    by_cases hid : id' = id
    · simp [hid, hself] at ho
    · rw [hother id' hid] at ho hended
      unfold Shared.Polls
      rw [hother id' hid, hrequests]
      exact h.polled id' o ho hended
  · intro id' requestId hr hrequest hended hmem
    rw [hhandled] at hmem
    by_cases hid : id' = id
    · -- nobody has asked for the new id yet
      rw [hid, hself] at hr
      cases hr
      obtain ⟨id1, hr1⟩ := h.asked _ (.inr hmem)
      exact absurd (h.issued id1 _ hr1).1 (lt_irrefl _)
    · rw [hother id' hid] at hr hrequest hended
      unfold Shared.Waits
      rw [hother id' hid, hrequests, hnow]
      exact h.waiting id' requestId hr hrequest hended hmem

theorem Issued.serves (h : Issued s) {d : Download} (hd : d.transfer.requestId = (s.download id).transfer.requestId)
    (htime : d.transfer.issuedAt = (s.download id).transfer.issuedAt) (hlate : d.worker.stage = 2)
    (requests : Requests) : Issued ({ s with requests }.setDownload id d) := by
  have hstage (at' : WorkerAt) : at'.stage ≤ 2 := by cases at' <;> simp [WorkerAt.stage]
  refine h.keeps ?_ ?_ ?_ ?_ rfl le_rfl (fun _ hr => .inl hr)
  · exact (Function.forall_update_iff s.download
      (fun id' d' => d'.transfer.requestId = (s.download id').transfer.requestId)).mpr ⟨hd, fun _ _ => rfl⟩
  · exact (Function.forall_update_iff s.download
      (fun id' d' => d'.transfer.issuedAt = (s.download id').transfer.issuedAt)).mpr ⟨htime, fun _ _ => rfl⟩
  · exact (Function.forall_update_iff s.download (fun id' d' => (s.download id').worker.stage ≤ d'.worker.stage)).mpr
      ⟨by rw [hlate]; exact hstage _, fun _ _ => le_rfl⟩
  · exact (Function.forall_update_iff s.download
      (fun id' d' => d'.worker.stage ≤ 1 → d'.transfer = (s.download id').transfer)).mpr
      ⟨fun h1 => by omega, fun _ _ _ => rfl⟩

theorem Booked.begins (h : Booked s) {requestId : ℤ} (hr : (s.download id).transfer.requestId = some requestId) :
    Booked ({ s with requests := (s.requests.beginRequest s.now requestId).2 }.setDownload id { s.download id with
      worker := .transfer
      transfer := { (s.download id).transfer with request := some (s.requests.beginRequest s.now requestId).1 } }) := by
  have hne (id' requestId' : ℤ) (hid : id' ≠ id) (hr' : (s.download id').transfer.requestId = some requestId') :
      requestId' ≠ requestId := by
    rintro rfl
    exact hid (h.unique id' id _ hr' hr)
  obtain ⟨hentry, hrunning⟩ := @Requests.beginRequest_entry s.requests s.now requestId
  have hother (requestId' : ℤ) (o : ℕ) (hne : requestId' ≠ requestId) (ho : s.requests.mRequests requestId' = some o) :=
    @Requests.beginRequest_other s.requests s.now o requestId requestId' hne ho
  refine ⟨?_, ?_, ?_, ?_, ?_⟩
  · refine Issued.serves h.toIssued ?_ ?_ ?_ _ <;> rfl
  · intro requestId' o ho
    by_cases hid : requestId' = requestId
    · subst hid
      refine ⟨id, by simpa using hr, ?_⟩
      obtain rfl : o = (s.requests.beginRequest s.now requestId').1 := Option.some.inj (ho.symm.trans hentry)
      refine Requests.beginRequest_created ?_ ?_
      · simpa using (h.issued id _ hr).2
      · intro o' ho'
        obtain ⟨id', hr', hle⟩ := h.entered requestId' o' ho'
        obtain rfl := h.unique id' id _ hr' hr
        simpa using hle
    · have ho' : s.requests.mRequests requestId' = some o := by
        rw [← Requests.beginRequest_other_iff hid]
        exact ho
      obtain ⟨id', hr', hle⟩ := h.entered requestId' o ho'
      have hid' : id' ≠ id := by
        rintro rfl
        rw [hr] at hr'
        exact hid (Option.some.inj hr').symm
      refine ⟨id', by simpa [hid'] using hr', ?_⟩
      simpa [hid', (hother requestId' o hid ho').2] using hle
  · intro id' o ho
    by_cases hid : id' = id
    · simp only [hid, Shared.setDownload_self, Option.some.injEq] at ho
      rw [← ho]
      exact (s.requests.beginRequest s.now requestId).2.used hentry
    · simp only [Shared.setDownload_other _ _ _ hid] at ho
      exact (h.used id' o ho).trans_le Requests.beginRequest_fresh
  · intro id' o ho hended
    by_cases hid : id' = id
    · simp only [hid, Shared.setDownload_self, Option.some.injEq] at ho
      subst ho
      exact ⟨requestId, by simpa [hid] using hr, hentry, hrunning⟩
    · simp only [Shared.setDownload_other _ _ _ hid] at ho hended
      obtain ⟨requestId', hr', hmem, hrun⟩ := h.polled id' o ho hended
      obtain ⟨hsame, hobject⟩ := hother requestId' o (hne id' requestId' hid hr') hmem
      refine ⟨requestId', by simpa [hid] using hr', hsame, ?_⟩
      simpa only [Shared.setDownload_requests, hobject] using hrun
  · intro id' requestId' hr' hnone hended hmem
    by_cases hid : id' = id
    · simp [hid] at hnone
    · simp only [Shared.setDownload_other _ _ _ hid] at hr' hnone hended
      unfold Shared.Waits
      simp only [Shared.setDownload_other _ _ _ hid, Shared.setDownload_requests]
      refine (h.waiting id' requestId' hr' hnone hended hmem).imp_left ?_
      rintro ⟨o, ho⟩
      exact ⟨o, (hother requestId' o (hne id' requestId' hid hr') ho).1⟩

theorem Booked.ends (h : Booked s) {requestId : ℤ}
    (hr : (s.download id).transfer.requestId = some requestId) :
    Booked ({ s with requests := s.requests.endRequest requestId }.setDownload id { s.download id with
      worker := .reply, transfer := { (s.download id).transfer with ended := true } }) := by
  have hne (id' requestId' : ℤ) (hid : id' ≠ id) (hr' : (s.download id').transfer.requestId = some requestId') :
      requestId' ≠ requestId := by
    rintro rfl
    exact hid (h.unique id' id _ hr' hr)
  refine ⟨?_, ?_, ?_, ?_, ?_⟩
  · refine Issued.serves h.toIssued ?_ ?_ ?_ _ <;> rfl
  · intro requestId' o ho
    have hid : requestId' ≠ requestId := by
      rintro rfl
      exact absurd (ho.symm.trans Requests.endRequest_self) (by simp)
    obtain ⟨id', hr', hle⟩ := h.entered requestId' o ((Requests.endRequest_other hid).symm.trans ho)
    have hid' : id' ≠ id := by
      rintro rfl
      rw [hr] at hr'
      exact hid (Option.some.inj hr').symm
    refine ⟨id', by simpa [hid'] using hr', ?_⟩
    simpa [hid', Requests.endRequest, Requests.erase] using hle
  · intro id' o ho
    refine h.used id' o ?_
    by_cases hid : id' = id
    · simpa [hid] using ho
    · simpa [hid] using ho
  · intro id' o ho hended
    by_cases hid : id' = id
    · simp [hid] at hended
    · simp only [Shared.setDownload_other _ _ _ hid] at ho hended
      obtain ⟨requestId', hr', hmem, hrun⟩ := h.polled id' o ho hended
      refine ⟨requestId', by simpa [hid] using hr', ?_, hrun⟩
      exact (Requests.endRequest_other (hne id' requestId' hid hr')).trans hmem
  · intro id' requestId' hr' hnone hended hmem
    by_cases hid : id' = id
    · simp [hid] at hended
    · simp only [Shared.setDownload_other _ _ _ hid] at hr' hnone hended
      unfold Shared.Waits
      simp only [Shared.setDownload_other _ _ _ hid]
      refine (h.waiting id' requestId' hr' hnone hended hmem).imp_left ?_
      rintro ⟨o, ho⟩
      exact ⟨o, (Requests.endRequest_other (hne id' requestId' hid hr')).trans ho⟩

theorem Booked.cancels (h : Booked s) {requestId : ℤ} (hflight : requestId ∈ s.inFlight) :
    Booked { s with
      inFlight := s.inFlight.erase requestId
      handled := requestId :: s.handled
      requests := s.requests.cancel s.now requestId } := by
  obtain ⟨id, hr⟩ := h.asked requestId (.inl hflight)
  have htime := (h.issued id requestId hr).2
  have hcreated (o : ℕ) (ho : s.requests.mRequests requestId = some o) :
      (s.download id).transfer.issuedAt ≤ (s.requests.object o).created := by
    obtain ⟨id', hr', hle⟩ := h.entered requestId o ho
    obtain rfl := h.unique id' id _ hr' hr
    exact hle
  obtain ⟨o, hentry, -, hlater⟩ := Requests.cancel_entry htime hcreated
  have hother (requestId' : ℤ) (o : ℕ) (hne : requestId' ≠ requestId) (ho : s.requests.mRequests requestId' = some o) :=
    @Requests.cancel_other s.requests s.now o requestId requestId' hne ho
  refine ⟨?_, ?_, ?_, ?_, ?_⟩
  · refine Issued.keeps h.toIssued (fun _ => rfl) (fun _ => rfl) (fun _ => le_rfl) (fun _ _ => rfl) rfl le_rfl ?_
    rintro requestId' (hmem | hmem)
    · exact .inl (.inl (List.mem_of_mem_erase hmem))
    · rcases List.mem_cons.mp hmem with rfl | hmem
      · exact .inl (.inl hflight)
      · exact .inl (.inr hmem)
  · intro requestId' o' ho'
    by_cases hid : requestId' = requestId
    · subst hid
      obtain rfl : o' = o := Option.some.inj (ho'.symm.trans hentry)
      exact ⟨id, hr, hlater⟩
    · have hold := Requests.cancel_within hid ho'
      obtain ⟨id', hr', hle⟩ := h.entered requestId' o' hold
      refine ⟨id', hr', ?_⟩
      simpa only [(hother requestId' o' hid hold).1] using hle
  · intro id' o' ho'
    exact (h.used id' o' ho').trans_le Requests.cancel_fresh
  · intro id' o' ho' hended
    obtain ⟨requestId', hr', hmem, hrun⟩ := h.polled id' o' ho' hended
    by_cases hid : requestId' = requestId
    · subst hid
      obtain ⟨hsame, hobject⟩ := @Requests.cancel_same s.requests s.now o' requestId' hmem
      refine ⟨requestId', hr', hsame, ?_⟩
      simp [hobject, hrun]
    · obtain ⟨hobject, hkept⟩ := hother requestId' o' hid hmem
      refine ⟨requestId', hr', ?_, by simpa only [hobject] using hrun⟩
      rcases hkept with hkept | ⟨hstopped, -⟩
      · exact hkept
      · rw [hrun] at hstopped
        exact absurd hstopped (by decide)
  · intro id' requestId' hr' hnone hended hin
    by_cases hid : requestId' = requestId
    · subst hid
      exact .inl ⟨o, hentry⟩
    · rcases h.waiting id' requestId' hr' hnone hended ((List.mem_cons.mp hin).resolve_left hid) with
        ⟨o', ho'⟩ | hlate
      · obtain ⟨-, hkept | ⟨-, hstale⟩⟩ := hother requestId' o' hid ho'
        · exact .inl ⟨o', hkept⟩
        · obtain ⟨id1, hr1, hle⟩ := h.entered requestId' o' ho'
          obtain rfl := h.unique id1 id' _ hr1 hr'
          exact .inr (hstale.trans_le (Nat.div_le_div_right (Nat.sub_le_sub_left hle s.now)))
      · exact .inr hlate

end BinderDownload.DownloadService.Cancel
