import BinderDownload.Wire.Reads

namespace BinderDownload.Wire

open Text

/-- The reads of a parcel; `readAligned` stands for every type of its size. -/
inductive ReadOp
  | readAligned (size : ℕ)
  | read (len : ℕ)
  | readInplace (len : ℕ)
  | readObject (nullMetaData : Bool)
  | setDataPosition (pos : ℕ)
  deriving DecidableEq

def ReadOp.Wild : ReadOp → Prop
  | .setDataPosition pos => INT32_MAX < pos
  | _ => False

inductive Handed
  | plain (pos : ℕ) (data : Bytes)
  | object (pos : ℕ) (data : Bytes)

/-- What was given out lies in the data, and is an object of the list or a null one, or else touches no object. -/
def Handed.Fair (data : Bytes) (objects : List ℕ) : Handed → Prop
  | .plain pos bytes => pos + bytes.length ≤ data.length ∧ bytes = (data.drop pos).take bytes.length ∧
      ∀ object ∈ objects, object + flatBinderObjectSize ≤ pos ∨ pos + bytes.length ≤ object
  | .object pos bytes => pos + flatBinderObjectSize ≤ data.length ∧
      bytes = (data.drop pos).take flatBinderObjectSize ∧ (Parcel.isNullObject bytes = true ∨ pos ∈ objects)

namespace Parcel

variable {p q : Parcel} {data : Bytes} {objects : List ℕ} {handed : List Handed} {ops : List ReadOp} {op : ReadOp}

def received (data : Bytes) (objects : List ℕ) : Parcel :=
  { mData := some data, mDataSize := data.length, mObjects := objects }

def act (p : Parcel) : ReadOp → Except Fault (List Handed × Parcel)
  | .readAligned size => (p.take size size).map (fun r => (r.1.toOption.toList.map (.plain p.mDataPos), r.2))
  | .read len => (p.read len).map (fun r => (r.1.toOption.toList.map (.plain p.mDataPos), r.2))
  | .readInplace len => (p.readInplace len).map (fun r => (r.1.toList.map (.plain p.mDataPos), r.2))
  | .readObject nullMetaData => (p.readObject nullMetaData).map (fun r => (r.1.toList.map (.object p.mDataPos), r.2))
  | .setDataPosition pos => (p.setDataPosition pos).map (fun q => ([], q))

def readAll (p : Parcel) : List ReadOp → Except Fault (List Handed × Parcel)
  | [] => .ok ([], p)
  | op :: ops =>
    match p.act op with
    | .ok (handed, p) => (p.readAll ops).map (fun r => (handed ++ r.1, r.2))
    | .error fault => .error fault

structure Delivered (data : Bytes) (objects : List ℕ) (p : Parcel) : Prop where
  block : p.mData = some data
  size : p.mDataSize = data.length
  listed : p.mObjects.Perm objects
  guarded : p.Guarded

theorem received_delivered (data : Bytes) (objects : List ℕ) : Delivered data objects (received data objects) := by
  refine ⟨rfl, rfl, .refl _, ⟨fun hsorted => ?_, fun _ object hmem => ?_⟩⟩
  · cases hsorted
  · rw [received, List.take_zero] at hmem
    cases hmem

theorem Delivered.bounded (h : Delivered data objects p) : p.mDataSize ≤ p.mDataCapacity := by
  rw [mDataCapacity, h.block, h.size]
  exact Nat.le_refl _

theorem Delivered.content (h : Delivered data objects p) : p.content = data := by
  rw [Parcel.content, h.block, h.size, Option.getD_some, List.take_length]

theorem Delivered.reordered (h : Delivered data objects p) {step : ℕ}
    (hrest : Reordered { p with mDataPos := p.mDataPos + step } q) (hguarded : q.Guarded) : Delivered data objects q :=
  ⟨hrest.data.trans h.block, hrest.size.trans h.size, hrest.objects.trans h.listed, hguarded⟩

theorem Delivered.refused (h : Delivered data objects p) {step : ℕ} (hrefused : Refused p step q) :
    Delivered data objects q := by
  rcases hrefused.rest with ⟨-, hrest⟩ | ⟨-, hrest⟩
  · exact ⟨hrest.data.trans h.block, hrest.size.trans h.size, hrest.objects.trans h.listed, hrefused.guarded⟩
  · exact h.reordered hrest hrefused.guarded

theorem Delivered.take (h : Delivered data objects p) {len step : ℕ} (hlen : len ≤ step) :
    ∃ r q, p.take len step = .ok (r, q) ∧ Delivered data objects q ∧
      ∀ bytes, r = .ok bytes → (Handed.plain p.mDataPos bytes).Fair data objects := by
  rcases take_spec h.guarded h.bounded hlen with ⟨bytes, q, hread, htook⟩ | ⟨err, q, hread, hrefused⟩
  · refine ⟨_, q, hread, h.reordered htook.rest htook.guarded, fun other heq => ?_⟩
    obtain rfl := Except.ok.inj heq
    have hwithin := htook.within
    rw [h.size] at hwithin
    have hbytes := htook.data
    rw [h.content] at hbytes
    have hlength : bytes.length = len := by
      rw [hbytes, List.length_take, List.length_drop]
      omega
    refine ⟨by omega, by rw [hlength]; exact hbytes, fun object hmem => ?_⟩
    rcases htook.apart object (h.listed.mem_iff.mpr hmem) with hbefore | hbehind
    · exact .inl hbefore
    · exact .inr (by omega)
  · exact ⟨_, q, hread, h.refused hrefused, fun bytes heq => by cases heq⟩

theorem act_wild (hwild : op.Wild) : p.act op = .error .fatal := by
  cases op with
  | setDataPosition pos =>
    have hpos : pos > INT32_MAX := hwild
    rw [Parcel.act, Parcel.setDataPosition, if_pos hpos]
    rfl
  | _ => exact hwild.elim

theorem Delivered.act (h : Delivered data objects p) (htame : ¬op.Wild) :
    ∃ handed q, p.act op = .ok (handed, q) ∧ Delivered data objects q ∧ ∀ given ∈ handed, given.Fair data objects := by
  have hplain {len step : ℕ} (hlen : len ≤ step) : ∃ handed q,
      ((p.take len step).map (fun r => (r.1.toOption.toList.map (Handed.plain p.mDataPos), r.2))) = .ok (handed, q) ∧
        Delivered data objects q ∧ ∀ given ∈ handed, given.Fair data objects := by
    obtain ⟨r, q, hread, hq, hfair⟩ := h.take hlen
    refine ⟨_, q, by rw [hread]; rfl, hq, fun given hmem => ?_⟩
    cases r with
    | error err => cases hmem
    | ok bytes =>
      obtain rfl := List.mem_singleton.mp hmem
      exact hfair bytes rfl
  cases op with
  | readAligned size => exact hplain (Nat.le_refl size)
  | read len =>
    simp only [Parcel.act, Parcel.read]
    split_ifs with hlarge
    · exact ⟨[], p, rfl, h, fun given hmem => absurd hmem List.not_mem_nil⟩
    · exact hplain (padSize_range len).1
  | readInplace len =>
    simp only [Parcel.act, Parcel.readInplace, h.block, Option.bind_some]
    split_ifs with hlarge
    · exact ⟨[], p, rfl, h, fun given hmem => absurd hmem List.not_mem_nil⟩
    · obtain ⟨handed, q, hread, hrest⟩ := hplain (padSize_range len).1
      refine ⟨handed, q, ?_, hrest⟩
      rw [← hread]
      cases p.take len (padSize len) <;> rfl
  | readObject nullMetaData =>
    simp only [Parcel.act]
    rcases readObject_spec h.guarded h.bounded nullMetaData with ⟨object, q, hread, hgot⟩ | ⟨q, hread, hrefused⟩
    · refine ⟨[.object p.mDataPos object], q, by rw [hread]; rfl, h.reordered hgot.rest hgot.guarded,
        fun given hmem => ?_⟩
      obtain rfl := List.mem_singleton.mp hmem
      have hwithin := hgot.within
      have hbytes := hgot.bytes
      rw [h.size] at hwithin
      rw [h.content] at hbytes
      refine ⟨hwithin, hbytes, ?_⟩
      rw [← h.listed.mem_iff]
      exact hgot.listed
    · exact ⟨[], q, by rw [hread]; rfl, h.refused hrefused, fun given hmem => absurd hmem List.not_mem_nil⟩
  | setDataPosition pos =>
    have hpos : ¬pos > INT32_MAX := htame
    simp only [Parcel.act, Parcel.setDataPosition, if_neg hpos]
    refine ⟨[], _, rfl, ⟨h.block, h.size, h.listed, fun hsorted => absurd hsorted Bool.false_ne_true, ?_⟩,
      fun given hmem => absurd hmem List.not_mem_nil⟩
    intro _ object hmem
    rw [List.take_zero] at hmem
    cases hmem

theorem Delivered.readAll (h : Delivered data objects p) (htame : ∀ op ∈ ops, ¬op.Wild) :
    ∃ handed q, p.readAll ops = .ok (handed, q) ∧ ∀ given ∈ handed, given.Fair data objects := by
  induction ops generalizing p with
  | nil => exact ⟨[], p, rfl, fun given hmem => absurd hmem List.not_mem_nil⟩
  | cons op ops ih =>
    obtain ⟨hop, hops⟩ := List.forall_mem_cons.mp htame
    obtain ⟨handed, q, hact, hq, hfair⟩ := h.act hop
    obtain ⟨later, r, hlater, hlaterFair⟩ := ih hq hops
    refine ⟨handed ++ later, r, by simp only [Parcel.readAll, hact, hlater]; rfl, fun given hmem => ?_⟩
    rcases List.mem_append.mp hmem with hmem | hmem
    · exact hfair given hmem
    · exact hlaterFair given hmem

theorem Delivered.aborts (h : Delivered data objects p) (hwild : ∃ op ∈ ops, op.Wild) :
    p.readAll ops = .error .fatal := by
  induction ops generalizing p with
  | nil =>
    obtain ⟨op, hmem, -⟩ := hwild
    exact absurd hmem List.not_mem_nil
  | cons op ops ih =>
    by_cases hop : op.Wild
    · rw [Parcel.readAll, act_wild hop]
    · obtain ⟨handed, q, hact, hq, -⟩ := h.act hop
      have hlater : ∃ op ∈ ops, op.Wild := by
        obtain ⟨other, hmem, hother⟩ := hwild
        rcases List.mem_cons.mp hmem with rfl | hmem
        · exact absurd hother hop
        · exact ⟨other, hmem, hother⟩
      simp only [Parcel.readAll, hact, ih hq hlater]
      rfl

theorem readAll_fair (data : Bytes) (objects : List ℕ) (ops : List ReadOp) :
    (readAll (received data objects) ops = .error .fatal ↔ ∃ pos, .setDataPosition pos ∈ ops ∧ INT32_MAX < pos) ∧
      (readAll (received data objects) ops ≠ .error .fatal → ∃ handed q,
        readAll (received data objects) ops = .ok (handed, q) ∧ ∀ given ∈ handed, given.Fair data objects) := by
  have hdelivered := received_delivered data objects
  by_cases hwild : ∃ op ∈ ops, op.Wild
  · have hfatal := hdelivered.aborts hwild
    refine ⟨⟨fun _ => ?_, fun _ => hfatal⟩, fun hnot => absurd hfatal hnot⟩
    obtain ⟨op, hmem, hop⟩ := hwild
    cases op with
    | setDataPosition pos => exact ⟨pos, hmem, hop⟩
    | _ => exact hop.elim
  · obtain ⟨handed, q, hread, hfair⟩ := hdelivered.readAll (fun op hmem hop => hwild ⟨op, hmem, hop⟩)
    refine ⟨⟨fun hfatal => ?_, fun ⟨pos, hmem, hpos⟩ => absurd ⟨_, hmem, hpos⟩ hwild⟩,
      fun _ => ⟨handed, q, hread, hfair⟩⟩
    rw [hread] at hfatal
    cases hfatal

end Parcel

end BinderDownload.Wire
