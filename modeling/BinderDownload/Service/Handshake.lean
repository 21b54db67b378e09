import BinderDownload.Service.Cancel

namespace BinderDownload.DownloadService.Cancel

open Text HttpService

def Download.Passed (d : Download) : Prop := d.worker = .call ∨ d.fetched = true

def CallerAt.flagged : CallerAt → Prop
  | .load | .send _ | .finished => True
  | _ => False

def Shared.Asked (s : Shared) (id : ℤ) : Prop :=
  ∃ requestId, (s.download id).transfer.requestId = some requestId ∧
    (requestId ∈ s.inFlight ∨ requestId ∈ s.handled)

structure Shook (targets : ℕ → ℤ) (s : Shared) : Prop where
  known : ∀ id, (s.download id).httpRequestId = -1 ∨
    (s.download id).transfer.requestId = some (s.download id).httpRequestId
  published : ∀ id, (s.download id).worker = .check ∨ (s.download id).Passed →
    (s.download id).transfer.requestId = some (s.download id).httpRequestId
  positive : ∀ id requestId, (s.download id).transfer.requestId = some requestId → 0 < requestId
  flagged : ∀ i, (s.caller i).flagged → (s.download (targets i)).canceled = true
  sending : ∀ i requestId, s.caller i = .send requestId →
    requestId = -1 ∧ ¬ (s.download (targets i)).Passed ∨
      (s.download (targets i)).transfer.requestId = some requestId
  finished : ∀ i, s.caller i = .finished → ¬ (s.download (targets i)).Passed ∨ s.Asked (targets i)

variable {targets : ℕ → ℤ} {s t : Shared} {id : ℤ} {a : Action}

theorem initial_shook (targets : ℕ → ℤ) : Shook targets initial := by
  constructor
  · intro id
    exact .inl rfl
  · rintro id (h | h | h)
    · simp [initial] at h
    · simp [initial] at h
    · simp [initial] at h
  · intro id requestId h
    simp [initial] at h
  · intro i h
    exact h.elim
  · intro i requestId h
    simp [initial] at h
  · intro i h
    simp [initial] at h

structure Download.Moves (d d' : Download) : Prop where
  known : d'.httpRequestId = -1 ∨ d'.transfer.requestId = some d'.httpRequestId
  published : d'.worker = .check ∨ d'.Passed → d'.transfer.requestId = some d'.httpRequestId
  positive : ∀ requestId, d'.transfer.requestId = some requestId → 0 < requestId
  canceled : d.canceled = true → d'.canceled = true
  stopped : d.canceled = true → d'.Passed → d.Passed
  requestId : ∀ requestId, d.transfer.requestId = some requestId → d'.transfer.requestId = some requestId

theorem Shook.moves (h : Shook targets s) {d : Download} (hdownload : t.download = Function.update s.download id d)
    (hd : (s.download id).Moves d) (hcaller : t.caller = s.caller) (hflight : t.inFlight = s.inFlight)
    (hhandled : t.handled = s.handled) : Shook targets t := by
  have hself : t.download id = d := by rw [hdownload, Function.update_self]
  have hother (id' : ℤ) (hne : id' ≠ id) : t.download id' = s.download id' := by
    rw [hdownload, Function.update_of_ne hne]
  constructor
  · intro id'
    by_cases hid : id' = id
    · rw [hid, hself]
      exact hd.known
    · rw [hother id' hid]
      exact h.known id'
  · intro id'
    by_cases hid : id' = id
    · rw [hid, hself]
      exact hd.published
    · rw [hother id' hid]
      exact h.published id'
  · intro id'
    by_cases hid : id' = id
    · rw [hid, hself]
      exact hd.positive
    · rw [hother id' hid]
      exact h.positive id'
  · intro i hi
    rw [hcaller] at hi
    have hcanceled := h.flagged i hi
    by_cases hid : targets i = id
    · rw [hid] at hcanceled ⊢
      rw [hself]
      exact hd.canceled hcanceled
    · rw [hother _ hid, hcanceled]
  · intro i requestId hi
    rw [hcaller] at hi
    have hcanceled := h.flagged i (by rw [hi]; trivial)
    have hsending := h.sending i requestId hi
    by_cases hid : targets i = id
    · rw [hid] at hcanceled hsending ⊢
      rw [hself]
      rcases hsending with ⟨hneg, hpass⟩ | hsome
      · exact .inl ⟨hneg, fun hp => hpass (hd.stopped hcanceled hp)⟩
      · exact .inr (hd.requestId _ hsome)
    · rw [hother _ hid]
      exact hsending
  · intro i hi
    rw [hcaller] at hi
    have hcanceled := h.flagged i (by rw [hi]; trivial)
    have hfinished := h.finished i hi
    unfold Shared.Asked at hfinished ⊢
    rw [hflight, hhandled]
    by_cases hid : targets i = id
    · rw [hid] at hcanceled hfinished ⊢
      rw [hself]
      rcases hfinished with hpass | ⟨requestId, hsome, hmessage⟩
      · exact .inl (fun hp => hpass (hd.stopped hcanceled hp))
      · exact .inr ⟨requestId, hd.requestId _ hsome, hmessage⟩
    · rw [hother _ hid]
      exact hfinished

theorem Shook.walks (h : Shook targets s) (id : ℤ) {d : Download} (hworker : d.worker ≠ .check ∧ d.worker ≠ .call)
    (hhttp : d.httpRequestId = (s.download id).httpRequestId)
    (htransfer : d.transfer.requestId = (s.download id).transfer.requestId)
    (hcanceled : d.canceled = (s.download id).canceled)
    (hfetched : d.fetched = true → (s.download id).Passed) : (s.download id).Moves d := by
  have hpassed (hp : d.Passed) : (s.download id).Passed := hfetched (hp.resolve_left hworker.2)
  constructor
  · rw [hhttp, htransfer]
    exact h.known id
  · rintro (hcheck | hp)
    · exact absurd hcheck hworker.1
    · rw [hhttp, htransfer]
      exact h.published id (.inr (hpassed hp))
  · rw [htransfer]
    exact h.positive id
  · intro hc
    rw [hcanceled, hc]
  · intro _ hp
    exact hpassed hp
  · rw [htransfer]
    exact fun _ hr => hr

theorem Shook.issues (h : Shook targets s) (hnext : 0 < s.mNextId)
    (hfits : (s.mNextId : ℤ) < 2 ^ 31) (hnone : (s.download id).transfer.requestId = none) :
    (s.download id).Moves { s.download id with
      worker := .publish, transfer := { requestId := some (toInt32 s.mNextId), issuedAt := s.now } } := by
  have hpassed : ¬ (s.download id).Passed := by
    intro hp
    have := h.published id (.inr hp)
    simp [hnone] at this
  have hhttp : (s.download id).httpRequestId = -1 := (h.known id).resolve_right (by simp [hnone])
  constructor
  · exact .inl hhttp
  · rintro (hcheck | hcall | hfetched)
    · simp at hcheck
    · simp at hcall
    · exact absurd (.inr hfetched) hpassed
  · intro requestId hr
    simp only [Option.some.injEq] at hr
    rw [← hr, toInt32_small (by omega) hfits]
    exact_mod_cast hnext
  · exact fun hc => hc
  · rintro - (hcall | hfetched)
    · simp at hcall
    · exact .inr hfetched
  · intro requestId hr
    simp [hnone] at hr

theorem Shook.publishes (h : Shook targets s) {requestId : ℤ}
    (hr : (s.download id).transfer.requestId = some requestId) :
    (s.download id).Moves { s.download id with worker := .check, httpRequestId := requestId } := by
  constructor
  · exact .inr hr
  · intro _
    exact hr
  · exact h.positive id
  · exact fun hc => hc
  · rintro - (hcall | hfetched)
    · simp at hcall
    · exact .inr hfetched
  · exact fun _ hr => hr

theorem Shook.clears (h : Shook targets s) (hw : (s.download id).worker = .check)
    (hcanceled : (s.download id).canceled = false) : (s.download id).Moves { s.download id with worker := .call } := by
  constructor
  · exact h.known id
  · intro _
    exact h.published id (.inl hw)
  · exact h.positive id
  · exact fun hc => hc
  · intro hc
    rw [hcanceled] at hc
    exact absurd hc Bool.false_ne_true
  · exact fun _ hr => hr

theorem Shook.workerStep (h : Shook targets s) {ok : Bool} (hnext : 0 < s.mNextId)
    (hnone : (s.download id).worker = .newRequestId → (s.download id).transfer.requestId = none)
    (hrule : Timely s (.worker id ok)) (hstep : workerStep s id ok = some t) : Shook targets t := by
  unfold Cancel.workerStep at hstep
  cases hw : (s.download id).worker with
  | enqueue =>
    simp only [hw] at hstep
    cases hstep
    exact h.moves rfl (h.walks id (by simp) rfl rfl rfl .inr) rfl rfl rfl
  | start =>
    simp only [hw] at hstep
    cases hstep
    exact h.moves rfl (h.walks id (by simp) rfl rfl rfl .inr) rfl rfl rfl
  | prepare =>
    simp only [hw] at hstep
    cases hstep
    exact h.moves rfl (h.walks id (by cases ok <;> simp) rfl rfl rfl .inr) rfl rfl rfl
  | newRequestId =>
    simp only [hw] at hstep
    split_ifs at hstep
    · cases hstep
      exact h.moves rfl (h.issues hnext (hrule.1 hw) (hnone hw)) rfl rfl rfl
    · cases hstep
      exact h.moves rfl (h.walks id (by simp) rfl rfl rfl .inr) rfl rfl rfl
  | publish =>
    simp only [hw] at hstep
    obtain ⟨requestId, hr, rfl⟩ := Option.map_eq_some_iff.mp hstep
    exact h.moves rfl (h.publishes hr) rfl rfl rfl
  | check =>
    simp only [hw] at hstep
    cases hstep
    by_cases hcanceled : (s.download id).canceled = true
    · rw [if_pos hcanceled]
      exact h.moves rfl (h.walks id (by simp) rfl rfl rfl .inr) rfl rfl rfl
    · rw [if_neg hcanceled]
      exact h.moves rfl (h.clears hw (by simpa using hcanceled)) rfl rfl rfl
  | call =>
    simp only [hw] at hstep
    split_ifs at hstep
    · cases hstep
      exact h.moves rfl (h.walks id (by simp) rfl rfl rfl (fun _ => .inl hw)) rfl rfl rfl
    · cases hstep
      exact h.moves rfl (h.walks id (by simp) rfl rfl rfl .inr) rfl rfl rfl
  | fetch =>
    simp only [hw] at hstep
    split_ifs at hstep
    cases hstep
    exact h.moves rfl (h.walks id (by simp) rfl rfl rfl .inr) rfl rfl rfl
  | transfer => simp [hw] at hstep
  | reply => simp [hw] at hstep
  | finish state =>
    simp only [hw] at hstep
    cases hstep
    exact h.moves rfl (h.walks id (by simp) rfl rfl rfl .inr) rfl rfl rfl
  | done => simp [hw] at hstep

theorem Shook.caller (h : Shook targets s) {i : ℕ} {at' : CallerAt} (hdownload : t.download = s.download)
    (hcaller : t.caller = Function.update s.caller i at')
    (hasked : ∀ requestId, requestId ∈ s.inFlight ∨ requestId ∈ s.handled →
      requestId ∈ t.inFlight ∨ requestId ∈ t.handled)
    (hflagged : at'.flagged → (s.download (targets i)).canceled = true)
    (hsending : ∀ requestId, at' = .send requestId → requestId = -1 ∧ ¬ (s.download (targets i)).Passed ∨
      (s.download (targets i)).transfer.requestId = some requestId)
    (hfinished : at' = .finished → ¬ (s.download (targets i)).Passed ∨ t.Asked (targets i)) : Shook targets t := by
  have hself : t.caller i = at' := by rw [hcaller, Function.update_self]
  have hother (j : ℕ) (hne : j ≠ i) : t.caller j = s.caller j := by rw [hcaller, Function.update_of_ne hne]
  constructor
  · rw [hdownload]
    exact h.known
  · rw [hdownload]
    exact h.published
  · rw [hdownload]
    exact h.positive
  · intro j hj
    rw [hdownload]
    by_cases hji : j = i
    · subst hji
      rw [hself] at hj
      exact hflagged hj
    · rw [hother j hji] at hj
      exact h.flagged j hj
  · intro j requestId hj
    rw [hdownload]
    by_cases hji : j = i
    · subst hji
      rw [hself] at hj
      exact hsending requestId hj
    · rw [hother j hji] at hj
      exact h.sending j requestId hj
  · intro j hj
    by_cases hji : j = i
    · subst hji
      rw [hself] at hj
      rw [hdownload]
      exact hfinished hj
    · rw [hother j hji] at hj
      rcases h.finished j hj with hpass | ⟨requestId, hsome, hmessage⟩
      · rw [hdownload]
        exact .inl hpass
      · refine .inr ⟨requestId, ?_, hasked requestId hmessage⟩
        rw [hdownload]
        exact hsome

theorem Shook.flags (h : Shook targets s) (id : ℤ) :
    Shook targets (s.setDownload id { s.download id with canceled := true }) :=
  h.moves rfl ⟨h.known id, h.published id, h.positive id, fun _ => rfl, fun _ hp => hp, fun _ hr => hr⟩ rfl rfl rfl

theorem Shook.callerStep (h : Shook targets s) {i : ℕ} (hstep : callerStep targets s i = some t) :
    Shook targets t := by
  unfold Cancel.callerStep at hstep
  cases hc : s.caller i with
  | enter =>
    simp only [hc] at hstep
    cases hstep
    refine h.caller rfl rfl (fun _ hr => hr) ?_ ?_ ?_
    all_goals split_ifs <;> simp [CallerAt.flagged]
  | flag =>
    simp only [hc] at hstep
    cases hstep
    refine (h.flags (targets i)).caller rfl rfl (fun _ hr => hr) ?_ ?_ ?_
    · intro _
      simp
    · simp
    · simp
  | load =>
    simp only [hc] at hstep
    cases hstep
    refine h.caller rfl rfl (fun _ hr => hr) ?_ ?_ ?_
    · intro _
      exact h.flagged i (by rw [hc]; trivial)
    · rintro _ ⟨⟩
      rcases h.known (targets i) with hnone | hsome
      · refine .inl ⟨hnone, fun hp => ?_⟩
        have hpos := h.positive _ _ (h.published _ (.inr hp))
        omega
      · exact .inr hsome
    · simp
  | send requestId =>
    simp only [hc] at hstep
    cases hstep
    have hsending := h.sending i requestId hc
    refine h.caller rfl rfl ?_ ?_ ?_ ?_
    · intro r hr
      simp only [Shared.setCaller]
      split_ifs
      · exact hr.imp_left (List.mem_cons_of_mem _)
      · exact hr
    · intro _
      exact h.flagged i (by rw [hc]; trivial)
    · simp
    · intro _
      rcases hsending with ⟨-, hpass⟩ | hsome
      · exact .inl hpass
      · refine .inr ⟨requestId, hsome, .inl ?_⟩
        simp [Shared.setCaller, (h.positive _ _ hsome).le]
  | finished => simp [hc] at hstep
  | ignored => simp [hc] at hstep

theorem Shook.cancels (h : Shook targets s) {requestId : ℤ} (hdownload : t.download = s.download)
    (hcaller : t.caller = s.caller) (hflight : t.inFlight = s.inFlight.erase requestId)
    (hhandled : t.handled = requestId :: s.handled) : Shook targets t := by
  constructor
  · rw [hdownload]
    exact h.known
  · rw [hdownload]
    exact h.published
  · rw [hdownload]
    exact h.positive
  · rw [hdownload, hcaller]
    exact h.flagged
  · rw [hdownload, hcaller]
    exact h.sending
  · intro i hi
    rw [hcaller] at hi
    rcases h.finished i hi with hpass | ⟨r, hsome, hmessage⟩
    · rw [hdownload]
      exact .inl hpass
    · refine .inr ⟨r, by rw [hdownload]; exact hsome, ?_⟩
      rw [hflight, hhandled]
      by_cases hr : r = requestId
      · exact .inr (hr ▸ List.mem_cons_self)
      · rcases hmessage with hmem | hmem
        · exact .inl ((List.mem_erase_of_ne hr).mpr hmem)
        · exact .inr (List.mem_cons_of_mem _ hmem)

end BinderDownload.DownloadService.Cancel
