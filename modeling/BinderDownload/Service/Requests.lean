import BinderDownload.Service.HttpService

/-!
The request table of the http service. Its entries share their `Request` objects with the transfers that
run, so the table leads to objects and the objects stay when an entry goes.
-/

namespace BinderDownload.HttpService

def kStaleRequestMs : ℕ := 60 * 1000

def millisSince (now time : ℕ) : ℕ := (now - time) / 1000000

structure Request where
  canceled : Bool := false
  running : Bool := false
  created : ℕ

structure Requests where
  mRequests : ℤ → Option ℕ
  object : ℕ → Request
  fresh : ℕ
  used : ∀ {id o}, mRequests id = some o → o < fresh
  single : ∀ {id id' o}, mRequests id = some o → mRequests id' = some o → id = id'

namespace Requests

def empty : Requests where
  mRequests := fun _ => none
  object := fun _ => { created := 0 }
  fresh := 0
  used := by simp
  single := by simp

def emplace (r : Requests) (now : ℕ) (id : ℤ) : Requests where
  mRequests := Function.update r.mRequests id (some r.fresh)
  object := Function.update r.object r.fresh { created := now }
  fresh := r.fresh + 1
  used := by
    intro i o h
    by_cases hi : i = id
    · rw [hi, Function.update_self] at h
      cases h
      exact Nat.lt_succ_self _
    · rw [Function.update_of_ne hi] at h
      exact Nat.lt_succ_of_lt (r.used h)
  single := by
    intro i i' o h h'
    by_cases hi : i = id <;> by_cases hi' : i' = id
    · rw [hi, hi']
    · rw [hi, Function.update_self] at h
      rw [Function.update_of_ne hi'] at h'
      cases h
      exact absurd (r.used h') (lt_irrefl _)
    · rw [hi', Function.update_self] at h'
      rw [Function.update_of_ne hi] at h
      cases h'
      exact absurd (r.used h) (lt_irrefl _)
    · rw [Function.update_of_ne hi] at h
      rw [Function.update_of_ne hi'] at h'
      exact r.single h h'

def erase (r : Requests) (drop : ℤ → Bool) : Requests where
  mRequests := fun id => if drop id then none else r.mRequests id
  object := r.object
  fresh := r.fresh
  used := by
    intro id o h
    split_ifs at h
    exact r.used h
  single := by
    intro id id' o h h'
    split_ifs at h h'
    exact r.single h h'

def setObject (r : Requests) (o : ℕ) (request : Request) : Requests :=
  { r with object := Function.update r.object o request }

def beginRequest (r : Requests) (now : ℕ) (id : ℤ) : ℕ × Requests :=
  match r.mRequests id with
  | some o => (o, r.setObject o { r.object o with running := true })
  | none => (r.fresh, (r.emplace now id).setObject r.fresh { running := true, created := now })

def endRequest (r : Requests) (id : ℤ) : Requests := r.erase (· = id)

def expired (r : Requests) (now : ℕ) (id : ℤ) : Bool :=
  match r.mRequests id with
  | some o => !(r.object o).running && kStaleRequestMs < millisSince now (r.object o).created
  | none => false

def cancel (r : Requests) (now : ℕ) (id : ℤ) : Requests :=
  match r.mRequests id with
  | some o => r.setObject o { r.object o with canceled := true }
  | none => ((r.erase (r.expired now)).emplace now id).setObject r.fresh { canceled := true, created := now }

section Spec

variable {r : Requests} {now time o : ℕ} {id id' : ℤ}

theorem used_ne (h : r.mRequests id = some o) : o ≠ r.fresh := (r.used h).ne

theorem beginRequest_other (hne : id' ≠ id) (h : r.mRequests id' = some o) :
    (r.beginRequest now id).2.mRequests id' = some o ∧ (r.beginRequest now id).2.object o = r.object o := by
  unfold beginRequest
  cases hid : r.mRequests id with
  | some o' =>
    have ho : o ≠ o' := by
      rintro rfl
      exact hne (r.single h hid)
    exact ⟨h, Function.update_of_ne ho _ _⟩
  | none =>
    constructor
    · exact (Function.update_of_ne hne _ _).trans h
    · simp [setObject, emplace, used_ne h]

theorem beginRequest_other_iff (hne : id' ≠ id) :
    (r.beginRequest now id).2.mRequests id' = r.mRequests id' := by
  unfold beginRequest
  cases r.mRequests id with
  | some o' => rfl
  | none => exact Function.update_of_ne hne _ _

theorem beginRequest_entry :
    (r.beginRequest now id).2.mRequests id = some (r.beginRequest now id).1 ∧
      ((r.beginRequest now id).2.object (r.beginRequest now id).1).running = true := by
  unfold beginRequest
  cases hid : r.mRequests id with
  | some o' => simp [setObject, hid]
  | none => simp [setObject, emplace]

theorem beginRequest_adopts (h : r.mRequests id = some o) :
    (r.beginRequest now id).1 = o ∧ ((r.beginRequest now id).2.object o).canceled = (r.object o).canceled := by
  simp [beginRequest, h, setObject]

theorem beginRequest_created (htime : time ≤ now) (h : ∀ o, r.mRequests id = some o → time ≤ (r.object o).created) :
    time ≤ ((r.beginRequest now id).2.object (r.beginRequest now id).1).created := by
  unfold beginRequest
  cases hid : r.mRequests id with
  | some o' => simpa [setObject] using h o' hid
  | none => simpa [setObject] using htime

theorem beginRequest_canceled (hused : o < r.fresh) (h : (r.object o).canceled = true) :
    ((r.beginRequest now id).2.object o).canceled = true := by
  unfold beginRequest
  cases hid : r.mRequests id with
  | some o' =>
    by_cases ho : o = o'
    · subst ho
      simpa [setObject] using h
    · simpa [setObject, ho] using h
  | none => simpa [setObject, emplace, hused.ne] using h

theorem beginRequest_fresh : r.fresh ≤ (r.beginRequest now id).2.fresh := by
  unfold beginRequest
  cases r.mRequests id with
  | some o' => exact le_rfl
  | none => exact Nat.le_succ _

theorem cancel_entry (htime : time ≤ now) (h : ∀ o, r.mRequests id = some o → time ≤ (r.object o).created) :
    ∃ o, (r.cancel now id).mRequests id = some o ∧ ((r.cancel now id).object o).canceled = true ∧
      time ≤ ((r.cancel now id).object o).created := by
  unfold cancel
  cases hid : r.mRequests id with
  | some o => exact ⟨o, hid, by simp [setObject], by simpa [setObject] using h o hid⟩
  | none => exact ⟨r.fresh, by simp [setObject, emplace, erase], by simp [setObject], by simpa [setObject] using htime⟩

theorem cancel_marks (h : (r.cancel now id).mRequests id = some o) : ((r.cancel now id).object o).canceled = true := by
  obtain ⟨o', ho', hcanceled, -⟩ := @cancel_entry r now 0 id (Nat.zero_le _) (fun _ _ => Nat.zero_le _)
  rw [ho'] at h
  cases h
  exact hcanceled

theorem cancel_same (h : r.mRequests id = some o) :
    (r.cancel now id).mRequests id = some o ∧
      (r.cancel now id).object o = { r.object o with canceled := true } := by
  simp [cancel, h, setObject]

theorem cancel_other (hne : id' ≠ id) (h : r.mRequests id' = some o) :
    (r.cancel now id).object o = r.object o ∧
      ((r.cancel now id).mRequests id' = some o ∨
        (r.object o).running = false ∧ kStaleRequestMs < millisSince now (r.object o).created) := by
  unfold cancel
  cases hid : r.mRequests id with
  | some o' =>
    have ho : o ≠ o' := by
      rintro rfl
      exact hne (r.single h hid)
    exact ⟨Function.update_of_ne ho _ _, .inl h⟩
  | none =>
    constructor
    · simp [setObject, emplace, erase, used_ne h]
    · by_cases hex : r.expired now id' = true
      · right
        simpa [expired, h] using hex
      · left
        simp [setObject, emplace, erase, Function.update_of_ne hne, hex, h]

theorem cancel_within (hne : id' ≠ id) (h : (r.cancel now id).mRequests id' = some o) : r.mRequests id' = some o := by
  unfold cancel at h
  cases hid : r.mRequests id with
  | some o' =>
    simp only [hid] at h
    exact h
  | none =>
    simp only [hid, setObject, emplace, erase, Function.update_of_ne hne] at h
    split_ifs at h
    exact h

theorem cancel_canceled (hused : o < r.fresh) (h : (r.object o).canceled = true) :
    ((r.cancel now id).object o).canceled = true := by
  unfold cancel
  cases hid : r.mRequests id with
  | some o' =>
    by_cases ho : o = o'
    · subst ho
      simp [setObject]
    · simpa [setObject, ho] using h
  | none => simpa [setObject, emplace, erase, hused.ne] using h

theorem cancel_fresh : r.fresh ≤ (r.cancel now id).fresh := by
  unfold cancel
  cases r.mRequests id with
  | some o' => exact le_rfl
  | none => exact Nat.le_succ _

theorem endRequest_other (hne : id' ≠ id) : (r.endRequest id).mRequests id' = r.mRequests id' := by
  simp [endRequest, erase, hne]

theorem endRequest_self : (r.endRequest id).mRequests id = none := by
  simp [endRequest, erase]

end Spec

end Requests

end BinderDownload.HttpService
