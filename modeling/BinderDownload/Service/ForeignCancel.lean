import BinderDownload.Lib.Run
import BinderDownload.Service.Requests

namespace BinderDownload.HttpService.History

open Text

/-- A call of `fetchToFd`: its arguments, the sink file, and the outside, which may depend on what the cancel
polls were answered. -/
structure Call where
  url : Bytes
  resumeFrom : ℤ
  callback : Bool
  bytes : Bytes
  world : List Bool → World

def Call.outcome (call : Call) (answers : List Bool) : Fetched :=
  fetchToFd call.url call.resumeFrom call.callback (call.world answers) call.bytes

def Call.refused : Call where
  url := []
  resumeFrom := 0
  callback := false
  bytes := []
  world := fun _ => { net := ⟨fun _ => .refused .connect [] (by decide), fun _ => false⟩ }

/-- A transfer holds on to its `Request` object. -/
structure Transfer where
  id : ℤ
  call : Call
  request : ℕ
  answers : List Bool := []
  outcome : Option Fetched := none

structure Service where
  now : ℕ := 0
  mNextId : ℕ := 1
  reserved : ℤ → ℕ := fun _ => 0
  requests : Requests := .empty
  transfers : List Transfer := []

inductive Action
  | tick (nanoseconds : ℕ)
  | newRequestId
  | start (id : ℤ) (call : Call)
  | poll (j : ℕ)
  | finish (j : ℕ)
  | cancel (id : ℤ)

namespace Service

def cancel (s : Service) (id : ℤ) : Service := { s with requests := s.requests.cancel s.now id }

def step (s : Service) : Action → Option Service
  | .tick nanoseconds => some { s with now := s.now + nanoseconds }
  | .newRequestId =>
    let id := toInt32 s.mNextId
    some { s with mNextId := s.mNextId + 1, reserved := Function.update s.reserved id (s.reserved id + 1) }
  | .start id call =>
    if s.reserved id = 0 then none
    else
      let (request, requests) := s.requests.beginRequest s.now id
      some { s with
        reserved := Function.update s.reserved id (s.reserved id - 1)
        requests
        transfers := s.transfers ++ [{ id, call, request }] }
  | .poll j =>
    match s.transfers[j]? with
    | some ⟨id, call, request, answers, none⟩ =>
      let answer := (s.requests.object request).canceled
      some { s with transfers := s.transfers.set j ⟨id, call, request, answers ++ [answer], none⟩ }
    | _ => none
  | .finish j =>
    match s.transfers[j]? with
    | some ⟨id, call, request, answers, none⟩ =>
      some { s with
        requests := s.requests.endRequest id
        transfers := s.transfers.set j ⟨id, call, request, answers, some (call.outcome answers)⟩ }
    | _ => none
  | .cancel id => some (s.cancel id)

/-- The id was never handed out, or whoever it was handed out to is done with it. -/
def Foreign (s : Service) (id : ℤ) : Prop :=
  s.reserved id = 0 ∧ ∀ transfer ∈ s.transfers, transfer.id = id → transfer.outcome ≠ none

def observed (s : Service) : List (List Bool × Option Fetched × Bool) :=
  s.transfers.map (fun transfer =>
    (transfer.answers, transfer.outcome, (s.requests.object transfer.request).canceled))

def Harmless (s : Service) (id : ℤ) : Prop :=
  ∀ as t, run step s as = some t → ∃ t', run step (s.cancel id) as = some t' ∧ t'.observed = t.observed

structure Kept (s : Service) : Prop where
  idle : ∀ {id o}, s.requests.mRequests id = some o → (s.requests.object o).running = false →
    (s.requests.object o).canceled = true
  running : ∀ {id o}, s.requests.mRequests id = some o → (s.requests.object o).running = true →
    ∃ transfer ∈ s.transfers, transfer.id = id ∧ transfer.outcome = none

variable {s t : Service} {a : Action} {as : List Action} {i : ℤ}

theorem initial_kept : Kept {} := by
  constructor
  · intro id o h
    simp [Requests.empty] at h
  · intro id o h
    simp [Requests.empty] at h

theorem Kept.frame (h : s.Kept) (id : ℤ) (hid : ∀ o, t.requests.mRequests id = some o →
      (t.requests.object o).running = false ∧ (t.requests.object o).canceled = true ∨
        (t.requests.object o).running = true ∧ ∃ transfer ∈ t.transfers, transfer.id = id ∧ transfer.outcome = none)
    (hother : ∀ id' o, id' ≠ id → t.requests.mRequests id' = some o →
      s.requests.mRequests id' = some o ∧ t.requests.object o = s.requests.object o)
    (htransfers : ∀ transfer ∈ s.transfers, transfer.id ≠ id → transfer.outcome = none →
      ∃ transfer' ∈ t.transfers, transfer'.id = transfer.id ∧ transfer'.outcome = none) : t.Kept := by
  constructor
  · intro id' o ho hrunning
    by_cases heq : id' = id
    · rw [heq] at ho
      rcases hid o ho with ⟨-, hcanceled⟩ | ⟨hrunning', -⟩
      · exact hcanceled
      · rw [hrunning'] at hrunning
        exact absurd hrunning (by decide)
    · obtain ⟨ho', hobject⟩ := hother id' o heq ho
      rw [hobject] at hrunning ⊢
      exact h.idle ho' hrunning
  · intro id' o ho hrunning
    by_cases heq : id' = id
    · rw [heq] at ho ⊢
      rcases hid o ho with ⟨hrunning', -⟩ | ⟨-, htransfer⟩
      · rw [hrunning'] at hrunning
        exact absurd hrunning (by decide)
      · exact htransfer
    · obtain ⟨ho', hobject⟩ := hother id' o heq ho
      rw [hobject] at hrunning
      obtain ⟨transfer, hmem, rfl, hnone⟩ := h.running ho' hrunning
      obtain ⟨transfer', hmem', hsame, hnone'⟩ := htransfers transfer hmem heq hnone
      exact ⟨transfer', hmem', hsame, hnone'⟩

theorem cancel_kept (h : s.Kept) (id : ℤ) : (s.cancel id).Kept := by
  refine h.frame id ?_ ?_ (fun transfer hmem _ hnone => ⟨transfer, hmem, rfl, hnone⟩)
  · intro o ho
    cases hid : s.requests.mRequests id with
    | some o' =>
      obtain ⟨hentry, hobject⟩ := @Requests.cancel_same s.requests s.now o' id hid
      rw [show o = o' from Option.some.inj (ho.symm.trans hentry)]
      change (((s.requests.cancel s.now id).object o').running = false ∧ _) ∨ _ ∧ _
      simp only [cancel, hobject]
      cases hrunning : (s.requests.object o').running with
      | false => exact .inl ⟨rfl, trivial⟩
      | true => exact .inr ⟨rfl, h.running hid hrunning⟩
    | none =>
      simp only [cancel, Requests.cancel, hid, Requests.setObject, Requests.emplace, Requests.erase,
        Function.update_self, Option.some.injEq] at ho ⊢
      rw [← ho]
      exact .inl ⟨by simp, by simp⟩
  · intro id' o hne ho
    have hbefore := Requests.cancel_within hne ho
    exact ⟨hbefore, (Requests.cancel_other hne hbefore).1⟩

theorem start_kept (h : s.Kept) {id : ℤ} {call : Call} (hstep : step s (.start id call) = some t) : t.Kept := by
  simp only [step] at hstep
  split_ifs at hstep
  rw [← Option.some.inj hstep]
  obtain ⟨hentry, hrunning⟩ := @Requests.beginRequest_entry s.requests s.now id
  refine h.frame id ?_ ?_ (fun transfer hmem _ hnone => ⟨transfer, List.mem_append_left _ hmem, rfl, hnone⟩)
  · intro o ho
    rw [show o = _ from Option.some.inj (ho.symm.trans hentry)]
    exact .inr ⟨hrunning, _, List.mem_append_right _ List.mem_cons_self, rfl, rfl⟩
  · intro id' o hne ho
    have hbefore := (Requests.beginRequest_other_iff hne).symm.trans ho
    exact ⟨hbefore, (Requests.beginRequest_other hne hbefore).2⟩

theorem mem_set {ts : List Transfer} {j : ℕ} {x y transfer : Transfer} (hj : ts[j]? = some y) (hid : x.id = y.id)
    (hmem : transfer ∈ ts) (hkeep : transfer.id ≠ y.id ∨ x.outcome = none) (hnone : transfer.outcome = none) :
    ∃ transfer' ∈ ts.set j x, transfer'.id = transfer.id ∧ transfer'.outcome = none := by
  obtain ⟨k, hk⟩ := List.mem_iff_getElem?.mp hmem
  by_cases hkj : k = j
  · rw [hkj, hj, Option.some.injEq] at hk
    have hx : x ∈ ts.set j x := List.mem_set (List.getElem?_eq_some_iff.mp hj).1 x
    rw [← hk] at hkeep ⊢
    exact ⟨x, hx, hid, hkeep.resolve_left (fun hne => hne rfl)⟩
  · refine ⟨transfer, List.mem_iff_getElem?.mpr ⟨k, ?_⟩, rfl, hnone⟩
    rw [List.getElem?_set_ne (Ne.symm hkj), hk]

theorem poll_kept (h : s.Kept) {j : ℕ} (hstep : step s (.poll j) = some t) : t.Kept := by
  simp only [step] at hstep
  split at hstep
  · rename_i id call request answers hj
    rw [← Option.some.inj hstep]
    refine ⟨h.idle, fun ho hrunning => ?_⟩
    obtain ⟨transfer, hmem, rfl, hnone⟩ := h.running ho hrunning
    exact mem_set hj rfl hmem (.inr rfl) hnone
  · simp at hstep

theorem finish_kept (h : s.Kept) {j : ℕ} (hstep : step s (.finish j) = some t) : t.Kept := by
  simp only [step] at hstep
  split at hstep
  · rename_i id call request answers hj
    rw [← Option.some.inj hstep]
    refine h.frame id ?_ ?_ (fun transfer hmem hne hnone => mem_set hj rfl hmem (.inl hne) hnone)
    · intro o ho
      rw [Requests.endRequest_self] at ho
      exact absurd ho (by simp)
    · intro id' o hne ho
      rw [Requests.endRequest_other hne] at ho
      exact ⟨ho, rfl⟩
  · simp at hstep

theorem step_kept (h : s.Kept) (hstep : step s a = some t) : t.Kept := by
  cases a with
  | tick nanoseconds =>
    rw [← Option.some.inj hstep]
    exact ⟨h.idle, h.running⟩
  | newRequestId =>
    rw [← Option.some.inj hstep]
    exact ⟨h.idle, h.running⟩
  | start id call => exact start_kept h hstep
  | poll j => exact poll_kept h hstep
  | finish j => exact finish_kept h hstep
  | cancel id =>
    rw [← Option.some.inj hstep]
    exact cancel_kept h id

theorem reachable_kept (h : run step {} as = some s) : s.Kept :=
  run_invariant (fun hs _ hstep => step_kept hs hstep) initial_kept h Obeys.always

theorem cancel_known (h : s.Kept) (hforeign : s.Foreign i) {o : ℕ} (ho : s.requests.mRequests i = some o) :
    s.cancel i = s := by
  have hidle : (s.requests.object o).running = false := by
    by_contra hrunning
    rw [Bool.not_eq_false] at hrunning
    obtain ⟨transfer, hmem, hid, hnone⟩ := h.running ho hrunning
    exact hforeign.2 transfer hmem hid hnone
  have hcanceled := h.idle ho hidle
  have hsame : s.requests.cancel s.now i = s.requests := by
    have hobject : { s.requests.object o with canceled := true } = s.requests.object o := by
      rw [← hcanceled]
    simp only [Requests.cancel, ho, hobject, Requests.setObject, Function.update_eq_self]
  rw [cancel, hsame]

theorem run_newRequestIds (s : Service) (n : ℕ) : ∃ reserved,
    run step s (List.replicate n .newRequestId) = some { s with mNextId := s.mNextId + n, reserved } := by
  induction n generalizing s with
  | zero => exact ⟨s.reserved, rfl⟩
  | succ n ih =>
    obtain ⟨reserved, hrun⟩ := ih { s with mNextId := s.mNextId + 1, reserved := _ }
    refine ⟨reserved, hrun.trans ?_⟩
    rw [Nat.add_assoc, Nat.add_comm 1 n]

theorem toInt32_reach (m : ℕ) {i : ℤ} (hi : toInt32 i = i) : ∃ n : ℕ, toInt32 ((m + n : ℕ) : ℤ) = i := by
  refine ⟨((i - m) % 2 ^ 32).toNat, ?_⟩
  unfold toInt32 at hi ⊢
  push_cast
  omega

theorem run_start {n : ℕ} (call : Call) (h : toInt32 ((s.mNextId + n : ℕ) : ℤ) = i) :
    ∃ t, run step s (List.replicate n .newRequestId ++ [.newRequestId, .start i call]) = some t ∧
      t.observed.getLast? = some ([], none,
        ((s.requests.beginRequest s.now i).2.object (s.requests.beginRequest s.now i).1).canceled) := by
  obtain ⟨reserved, hrun⟩ := run_newRequestIds s n
  rw [run_append hrun]
  simp only [run, step, h, Option.bind_some, Function.update_self, Nat.add_one_ne_zero, if_false]
  refine ⟨_, rfl, ?_⟩
  simp [observed]

theorem begin_flag_none {now : ℕ} {r : Requests} (h : r.mRequests i = none) :
    ((r.beginRequest now i).2.object (r.beginRequest now i).1).canceled = false := by
  simp [Requests.beginRequest, h, Requests.setObject]

theorem begin_flag_canceled (now : ℕ) (r : Requests) (i : ℤ) :
    (((r.cancel now i).beginRequest now i).2.object ((r.cancel now i).beginRequest now i).1).canceled = true := by
  obtain ⟨o, ho, hcanceled, -⟩ := @Requests.cancel_entry r now 0 i (Nat.zero_le _) (fun _ _ => Nat.zero_le _)
  obtain ⟨hadopted, hflag⟩ := @Requests.beginRequest_adopts (r.cancel now i) now o i ho
  rw [hadopted, hflag, hcanceled]

theorem cancel_foreign (as : List Action) (s : Service) (i : ℤ) (hi : toInt32 i = i) (hrun : run step {} as = some s)
    (hforeign : s.Foreign i) : s.Harmless i ↔ (s.requests.mRequests i).isSome := by
  constructor
  · intro hharmless
    by_contra hsome
    have hnone : s.requests.mRequests i = none := Option.not_isSome_iff_eq_none.mp hsome
    obtain ⟨n, hn⟩ := toInt32_reach s.mNextId hi
    obtain ⟨t, ht, hlast⟩ := run_start Call.refused hn
    obtain ⟨u, hu, hlast'⟩ := run_start (s := s.cancel i) Call.refused hn
    obtain ⟨t', ht', hsame⟩ := hharmless _ t ht
    rw [← Option.some.inj (ht'.symm.trans hu), hsame, hlast, begin_flag_none hnone] at hlast'
    rw [show (s.cancel i).requests = s.requests.cancel s.now i from rfl, show (s.cancel i).now = s.now from rfl,
      begin_flag_canceled] at hlast'
    simp at hlast'
  · intro hsome bs t ht
    obtain ⟨o, ho⟩ := Option.isSome_iff_exists.mp hsome
    rw [cancel_known (reachable_kept hrun) hforeign ho]
    exact ⟨t, ht, rfl⟩

theorem cancel_foreign_again : Harmless (cancel {} 5) 5 :=
  (cancel_foreign [.cancel 5] (cancel {} 5) 5 (by decide) rfl ⟨rfl, by simp [cancel]⟩).mpr (by decide)

def flags (s : Service) : List Bool := s.observed.map (fun seen => seen.2.2)

theorem cancel_foreign_harms :
    let later : List Action := [.newRequestId, .start 1 .refused]
    let others : List Action := [.newRequestId, .cancel 2, .tick 61000000000, .cancel 1, .start 2 .refused]
    Foreign {} 1 ∧ (run step {} later).map flags = some [false] ∧
      (run step (cancel {} 1) later).map flags = some [true] ∧ ¬Harmless {} 1 ∧
      (run step {} (later ++ .finish 0 :: others)).map flags = some [false, false] ∧
      (run step {} (later ++ .finish 0 :: .cancel 1 :: others)).map flags = some [false, true] := by
  intro later others
  have hbefore : (run step {} later).map flags = some [false] := by decide +kernel
  have hafter : (run step (cancel {} 1) later).map flags = some [true] := by decide +kernel
  refine ⟨⟨rfl, by simp⟩, hbefore, hafter, fun hharmless => ?_, by decide +kernel, by decide +kernel⟩
  obtain ⟨t, ht, hflags⟩ := Option.map_eq_some_iff.mp hbefore
  obtain ⟨t', ht', hsame⟩ := hharmless later t ht
  rw [ht', Option.map_some, flags, hsame, ← flags, hflags] at hafter
  exact absurd hafter (by decide)

end Service

end BinderDownload.HttpService.History
