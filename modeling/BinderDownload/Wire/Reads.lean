import BinderDownload.Wire.Writes

namespace BinderDownload.Wire

open Text

namespace Parcel

variable {p q : Parcel} {len step pos upperBound : ℕ} {objects : List ℕ}

def Ascending (objects : List ℕ) : Prop := objects.Pairwise (· ≤ ·)

theorem isSorted_iff (objects : List ℕ) : isSorted objects = true ↔ Ascending objects := by
  unfold Ascending
  induction objects with
  | nil => simp [isSorted]
  | cons object objects ih =>
    cases objects with
    | nil => simp [isSorted]
    | cons next objects =>
      have hzip : isSorted (object :: next :: objects) = (decide (object ≤ next) && isSorted (next :: objects)) := rfl
      rw [hzip, Bool.and_eq_true, decide_eq_true_eq, ih, List.pairwise_cons (a := object)]
      refine and_congr_left fun hrest => ⟨fun hle other hmem => ?_, fun hall => hall next List.mem_cons_self⟩
      rcases List.mem_cons.mp hmem with rfl | hlater
      · exact hle
      · exact hle.trans (List.rel_of_pairwise_cons hrest hlater)

/-- The hint stands behind objects that the cursor has passed, as long as the objects are in order. -/
structure Guarded (p : Parcel) : Prop where
  sorted : p.mObjectsSorted = true → Ascending p.mObjects
  passed : Ascending p.mObjects → ∀ object ∈ p.mObjects.take p.mNextObjectHint,
    object + flatBinderObjectSize ≤ p.mDataPos

theorem passObjects_some {passed : ℕ} (hsorted : Ascending objects)
    (h : passObjects pos upperBound objects = some passed) :
    (∀ object ∈ objects.take passed, object + flatBinderObjectSize ≤ pos) ∧
      ∀ object ∈ objects.drop passed, upperBound ≤ object := by
  induction objects generalizing passed with
  | nil => simp
  | cons object objects ih =>
    unfold passObjects at h
    split_ifs at h with hbefore hinside
    · obtain ⟨rest, hrest, rfl⟩ := Option.map_eq_some_iff.mp h
      obtain ⟨hpassed, hahead⟩ := ih (List.Pairwise.of_cons hsorted) hrest
      refine ⟨fun other hmem => ?_, hahead⟩
      rw [List.take_succ_cons] at hmem
      rcases List.mem_cons.mp hmem with rfl | hlater
      · omega
      · exact hpassed other hlater
    · obtain rfl := Option.some.inj h
      refine ⟨fun other hmem => by simp at hmem, fun other hmem => ?_⟩
      rcases List.mem_cons.mp hmem with rfl | hlater
      · omega
      · exact (Nat.not_lt.mp hbefore).trans (List.rel_of_pairwise_cons hsorted hlater)

structure Reordered (p q : Parcel) : Prop where
  data : q.mData = p.mData
  size : q.mDataSize = p.mDataSize
  pos : q.mDataPos = p.mDataPos
  error : q.mError = p.mError
  objects : q.mObjects.Perm p.mObjects

theorem Reordered.refl (p : Parcel) : Reordered p p := ⟨rfl, rfl, rfl, rfl, .refl _⟩

theorem Reordered.capacity (h : Reordered p q) : q.mDataCapacity = p.mDataCapacity := by
  rw [mDataCapacity, h.data]
  rfl

theorem sortObjects_spec (h : p.Guarded) :
    Reordered p p.sortObjects ∧ p.sortObjects.Guarded ∧ Ascending p.sortObjects.mObjects := by
  unfold sortObjects
  split_ifs with hflag hsorted
  · refine ⟨.refl p, h, ?_⟩
    rcases Bool.or_eq_true_iff.mp hflag with hflag | hshort
    · exact h.sorted hflag
    · match hobjects : p.mObjects with
      | [] => exact List.Pairwise.nil
      | [object] => exact List.pairwise_singleton _ _
      | first :: second :: rest => rw [hobjects] at hshort; simp at hshort
  · have hascending := (isSorted_iff _).mp hsorted
    exact ⟨⟨rfl, rfl, rfl, rfl, .refl _⟩, ⟨fun _ => hascending, h.passed⟩, hascending⟩
  · have hascending : Ascending (p.mObjects.insertionSort (· ≤ ·)) := List.pairwise_insertionSort _ _
    refine ⟨⟨rfl, rfl, rfl, rfl, List.perm_insertionSort _ _⟩, ⟨fun _ => hascending, fun _ object hmem => ?_⟩,
      hascending⟩
    simp at hmem

theorem checkObjects_spec (h : p.Guarded) (hsorted : Ascending p.mObjects) (upperBound : ℕ) :
    (∃ q, p.checkObjects upperBound = (.noError, q) ∧ Reordered p q ∧ q.Guarded ∧
        ∀ object ∈ p.mObjects, object + flatBinderObjectSize ≤ p.mDataPos ∨ upperBound ≤ object) ∨
      p.checkObjects upperBound = (.permissionDenied, p) := by
  unfold checkObjects
  cases hpass : passObjects p.mDataPos upperBound (p.mObjects.drop p.mNextObjectHint) with
  | none => exact .inr rfl
  | some passed =>
    have hrest : Ascending (p.mObjects.drop p.mNextObjectHint) := List.Pairwise.sublist (List.drop_sublist _ _) hsorted
    obtain ⟨hpassed, hahead⟩ := passObjects_some hrest hpass
    refine .inl ⟨_, rfl, ⟨rfl, rfl, rfl, rfl, .refl _⟩, ⟨h.sorted, fun hsorted object hmem => ?_⟩,
      fun object hmem => ?_⟩
    · have hsplit : p.mObjects.take (p.mNextObjectHint + passed) =
          p.mObjects.take p.mNextObjectHint ++ (p.mObjects.drop p.mNextObjectHint).take passed := List.take_add
      rw [hsplit] at hmem
      rcases List.mem_append.mp hmem with hmem | hmem
      · exact h.passed hsorted object hmem
      · exact hpassed object hmem
    · rw [← List.take_append_drop p.mNextObjectHint p.mObjects,
        ← List.take_append_drop passed (p.mObjects.drop p.mNextObjectHint)] at hmem
      rcases List.mem_append.mp hmem with hmem | hmem
      · exact .inl (h.passed hsorted object hmem)
      · rcases List.mem_append.mp hmem with hmem | hmem
        · exact .inl (hpassed object hmem)
        · exact .inr (hahead object hmem)

theorem Guarded.forward (h : p.Guarded) (step : ℕ) : Guarded { p with mDataPos := p.mDataPos + step } :=
  ⟨h.sorted, fun hsorted object hmem => (h.passed hsorted object hmem).trans (Nat.le_add_right _ _)⟩

structure Took (p : Parcel) (len step : ℕ) (data : Bytes) (q : Parcel) : Prop where
  within : p.mDataPos + step ≤ p.mDataSize
  data : data = (p.content.drop p.mDataPos).take len
  apart : ∀ object ∈ p.mObjects, object + flatBinderObjectSize ≤ p.mDataPos ∨ p.mDataPos + step ≤ object
  rest : Reordered { p with mDataPos := p.mDataPos + step } q
  guarded : q.Guarded

structure Refused (p : Parcel) (step : ℕ) (q : Parcel) : Prop where
  rest : p.mDataSize < p.mDataPos + step ∧ Reordered p q ∨
    p.mDataPos + step ≤ p.mDataSize ∧ Reordered { p with mDataPos := p.mDataPos + step } q
  guarded : q.Guarded

theorem validate_spec (h : p.Guarded) (upperBound : ℕ) :
    ∃ err q, (if p.mObjects.length > 0 then p.validateReadData upperBound else (.noError, p)) = (err, q) ∧
      Reordered p q ∧ q.Guarded ∧ (err = .noError ∧
        (∀ object ∈ p.mObjects, object + flatBinderObjectSize ≤ p.mDataPos ∨ upperBound ≤ object) ∨
          err = .permissionDenied) := by
  by_cases hany : p.mObjects.length > 0
  · rw [if_pos hany]
    obtain ⟨hsame, hguarded, hsorted⟩ := sortObjects_spec h
    unfold validateReadData
    rcases checkObjects_spec hguarded hsorted upperBound with ⟨q, hcheck, hrest, hlater, hapart⟩ | hcheck
    · refine ⟨.noError, q, hcheck, ⟨?_, ?_, ?_, ?_, hrest.objects.trans hsame.objects⟩, hlater, .inl ⟨rfl, ?_⟩⟩
      · rw [hrest.data, hsame.data]
      · rw [hrest.size, hsame.size]
      · rw [hrest.pos, hsame.pos]
      · rw [hrest.error, hsame.error]
      · intro object hmem
        rw [← hsame.pos]
        exact hapart object (hsame.objects.mem_iff.mpr hmem)
    · exact ⟨.permissionDenied, _, hcheck, hsame, hguarded, .inr rfl⟩
  · rw [if_neg hany]
    have hnone : p.mObjects = [] := List.eq_nil_of_length_eq_zero (by omega)
    refine ⟨.noError, p, rfl, .refl p, h, .inl ⟨rfl, fun object hmem => ?_⟩⟩
    rw [hnone] at hmem
    cases hmem

theorem load_content (hsize : p.mDataSize ≤ p.mDataCapacity) (hin : pos + len ≤ p.mDataSize) :
    p.load pos len = .ok ((p.content.drop pos).take len) := by
  rw [load, if_pos (by omega), content, List.drop_take, List.take_take, Nat.min_eq_left (by omega)]

theorem Reordered.forward (h : Reordered p q) (step : ℕ) :
    Reordered { p with mDataPos := p.mDataPos + step } { q with mDataPos := q.mDataPos + step } :=
  ⟨h.data, h.size, congrArg (fun pos => pos + step) h.pos, h.error, h.objects⟩

theorem Reordered.content (h : Reordered p q) : q.content = p.content := by
  rw [Parcel.content, h.data, h.size]
  rfl

theorem take_spec (h : p.Guarded) (hsize : p.mDataSize ≤ p.mDataCapacity) (hlen : len ≤ step) :
    (∃ data q, p.take len step = .ok (.ok data, q) ∧ Took p len step data q) ∨
      ∃ err q, p.take len step = .ok (.error err, q) ∧ Refused p step q := by
  unfold take
  by_cases hin : p.mDataPos + step ≤ p.mDataSize
  · rw [if_pos hin]
    obtain ⟨err, q, hvalid, hsame, hguarded, hcase⟩ := validate_spec h (p.mDataPos + step)
    simp only [hvalid]
    rcases hcase with ⟨rfl, hapart⟩ | rfl
    · have hload : q.load q.mDataPos len = .ok ((p.content.drop p.mDataPos).take len) := by
        rw [load_content (by rw [hsame.size, hsame.capacity]; exact hsize) (by rw [hsame.size, hsame.pos]; omega),
          hsame.content, hsame.pos]
      refine .inl ⟨_, { q with mDataPos := q.mDataPos + step }, ?_, hin, rfl, hapart, hsame.forward step,
        hguarded.forward step⟩
      simp only [hload]
      rfl
    · exact .inr ⟨_, _, rfl, .inr ⟨hin, hsame.forward step⟩, hguarded.forward step⟩
  · rw [if_neg hin]
    exact .inr ⟨.notEnoughData, p, rfl, .inl ⟨Nat.not_le.mp hin, .refl p⟩, h⟩

theorem take_plain (hobjects : p.mObjects = []) (hsize : p.mDataSize ≤ p.mDataCapacity) (hlen : len ≤ step)
    (hin : p.mDataPos + step ≤ p.mDataSize) : p.take len step =
      .ok (.ok ((p.content.drop p.mDataPos).take len), { p with mDataPos := p.mDataPos + step }) := by
  have hnone : ¬ p.mObjects.length > 0 := by
    rw [hobjects]
    exact Nat.lt_irrefl 0
  unfold take
  rw [if_pos hin, if_neg hnone]
  simp only
  rw [load_content hsize (by omega)]
  rfl

section Objects

theorem seekBack_le (objects : List ℕ) (pos opos : ℕ) : seekBack objects pos opos ≤ opos := by
  induction opos with
  | zero => exact Nat.le_refl _
  | succ opos ih =>
    unfold seekBack
    split_ifs
    · omega
    · exact Nat.le_refl _

theorem seekForward_lt {opos : ℕ} (h : opos < objects.length) : seekForward objects pos opos < objects.length := by
  have hle := (List.takeWhile_prefix (fun object => decide (object < pos))
    (l := (objects.drop opos).dropLast)).length_le
  rw [List.length_dropLast, List.length_drop] at hle
  unfold seekForward
  omega

theorem getD_found {opos : ℕ} (hlt : opos < objects.length) (h : objects.getD opos 0 = pos) :
    objects[opos]? = some pos := by
  rw [List.getD_eq_getElem?_getD, List.getElem?_eq_getElem hlt, Option.getD_some] at h
  rw [List.getElem?_eq_getElem hlt, h]

theorem findObject_some {opos : ℕ} (h : p.findObject pos = some opos) : p.mObjects[opos]? = some pos := by
  unfold findObject at h
  simp only at h
  rw [ite_eq_iff] at h
  obtain ⟨hany, h⟩ := h.resolve_right (fun hnone => by cases hnone.2)
  have hstart : (if p.mNextObjectHint < p.mObjects.length then seekForward p.mObjects pos p.mNextObjectHint
      else p.mObjects.length - 1) < p.mObjects.length := by
    split_ifs with hhint
    · exact seekForward_lt hhint
    · omega
  generalize (if p.mNextObjectHint < p.mObjects.length then seekForward p.mObjects pos p.mNextObjectHint
      else p.mObjects.length - 1) = start at h hstart
  split_ifs at h with hforward hback
  · obtain rfl := Option.some.inj h
    exact getD_found hstart hforward
  · obtain rfl := Option.some.inj h
    exact getD_found ((seekBack_le _ _ _).trans_lt hstart) hback

structure Received (p : Parcel) (object : Bytes) (q : Parcel) : Prop where
  within : p.mDataPos + flatBinderObjectSize ≤ p.mDataSize
  bytes : object = (p.content.drop p.mDataPos).take flatBinderObjectSize
  listed : isNullObject object = true ∨ p.mDataPos ∈ p.mObjects
  rest : Reordered { p with mDataPos := p.mDataPos + flatBinderObjectSize } q
  guarded : q.Guarded

theorem Guarded.found (h : p.Guarded) {opos : ℕ} (hfound : p.mObjects[opos]? = some p.mDataPos) :
    Guarded { p with mDataPos := p.mDataPos + flatBinderObjectSize, mNextObjectHint := opos + 1 } := by
  refine ⟨h.sorted, fun hsorted object hmem => ?_⟩
  have hlast : p.mObjects.take (opos + 1) = p.mObjects.take opos ++ [p.mDataPos] := by
    rw [List.take_add_one, hfound]
    rfl
  have hbefore : Ascending (p.mObjects.take (opos + 1)) := List.Pairwise.sublist (List.take_sublist _ _) hsorted
  rw [hlast] at hbefore
  have hle : object ≤ p.mDataPos := by
    rcases List.mem_append.mp (hlast ▸ hmem) with hmem | hmem
    · exact (List.pairwise_append.mp hbefore).2.2 object hmem p.mDataPos List.mem_cons_self
    · exact (List.mem_singleton.mp hmem).le
  exact Nat.add_le_add_right hle _

theorem readObject_spec (h : p.Guarded) (hsize : p.mDataSize ≤ p.mDataCapacity) (nullMetaData : Bool) :
    (∃ object q, p.readObject nullMetaData = .ok (some object, q) ∧ Received p object q) ∨
      ∃ q, p.readObject nullMetaData = .ok (none, q) ∧ Refused p flatBinderObjectSize q := by
  unfold readObject
  simp only
  by_cases hin : p.mDataPos + flatBinderObjectSize ≤ p.mDataSize
  · rw [if_pos hin, load_content hsize hin]
    simp only [bind, Except.bind]
    split_ifs with hnull
    · rw [Bool.and_eq_true] at hnull
      exact .inl ⟨_, _, rfl, hin, rfl, .inl hnull.2, .refl _, h.forward _⟩
    · cases hfind : findObject { p with mDataPos := p.mDataPos + flatBinderObjectSize } p.mDataPos with
      | none => exact .inr ⟨_, rfl, .inr ⟨hin, .refl _⟩, h.forward _⟩
      | some opos =>
        have hfound : p.mObjects[opos]? = some p.mDataPos := findObject_some hfind
        exact .inl ⟨_, _, rfl, hin, rfl, .inr (List.mem_of_getElem? hfound), ⟨rfl, rfl, rfl, rfl, .refl _⟩,
          h.found hfound⟩
  · rw [if_neg hin]
    exact .inr ⟨p, rfl, .inl ⟨Nat.not_le.mp hin, .refl p⟩, h⟩

end Objects

end Parcel

end BinderDownload.Wire
