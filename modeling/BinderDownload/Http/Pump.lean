import BinderDownload.Lib.Feed
import BinderDownload.Http.Source

namespace BinderDownload.Http

open Text

abbrev BodyFn (σ : Type) := σ → Bytes → Bool × σ

structure Pumped (σ ρ : Type) where
  outcome : Except Halt ρ
  written : ℕ
  sink : σ

def sinkRejected : Halt := .failed .write (ascii "sink rejected the response body")

def closedEarly (missing : ℤ) : Halt :=
  .failed .io (ascii "connection closed with " ++ toText missing ++ ascii " bytes still expected")

namespace Reader

def refill (r : Reader) : Except Halt (Bool × Reader) :=
  if r.bufferedSize = 0 then r.fill else .ok (false, r)

theorem refill_error {r : Reader} {halt : Halt} (h : r.refill = .error halt) :
    r.source = ⟨[], .halted halt⟩ := by
  unfold refill at h
  split_ifs at h with hb
  rw [source_empty r hb, fill_error h]

theorem refill_closed {r r' : Reader} (h : r.refill = .ok (true, r')) :
    r.source = ⟨[], .closed⟩ ∧ r'.source = ⟨[], .closed⟩ := by
  unfold refill at h
  split_ifs at h with hb
  · obtain ⟨h1, h2, h3⟩ := fill_closed h
    have hn : r.buffered = [] := List.eq_nil_of_length_eq_zero (by rw [buffered_length, hb])
    simp [source, h1, h2, h3, hn]
  · simp at h

theorem refill_source {r r' : Reader} (h : r.refill = .ok (false, r')) :
    r'.source = r.source ∧ 0 < r'.bufferedSize := by
  unfold refill at h
  split_ifs at h with hb
  · obtain ⟨h1, h2⟩ := fill_source h
    rw [source_empty r hb]
    exact ⟨h1, by rw [← buffered_length]; exact List.length_pos_iff.mpr h2⟩
  · simp only [Except.ok.injEq, Prod.mk.injEq, true_and] at h
    subst h
    exact ⟨rfl, by omega⟩

def slice (r : Reader) (want : ℤ) (written : ℕ) : ℕ :=
  if 0 ≤ want then min r.bufferedSize (want - written).toNat else r.bufferedSize

theorem source_slice {r r' : Reader} {want : ℤ} {written : ℕ} (h : r.refill = .ok (false, r'))
    (hw : want < 0 ∨ (written : ℤ) < want) :
    0 < r'.slice want written ∧ r'.slice want written ≤ r'.bufferedSize ∧
      r'.slice want written ≤ r.source.data.length ∧
      (r'.consume (r'.slice want written)).source =
        ⟨r.source.data.drop (r'.slice want written), r.source.stop⟩ := by
  obtain ⟨hs, hpos⟩ := refill_source h
  have hle : r'.slice want written ≤ r'.bufferedSize := by
    unfold slice
    split_ifs <;> omega
  have hlen : r'.bufferedSize ≤ r'.source.data.length := by simp [source]
  refine ⟨by unfold slice; split_ifs <;> omega, hle, by rw [← hs]; omega, ?_⟩
  rw [source_consume r' _ hle, hs]

end Reader

variable {σ : Type}

def pumpPlain (r : Reader) (want : ℤ) (onBody : BodyFn σ) (s : σ) (written : ℕ) : Pumped σ Reader :=
  if _hw : want < 0 ∨ (written : ℤ) < want then
    match _hr : r.refill with
    | .error halt => ⟨.error halt, written, s⟩
    | .ok (true, r') =>
      if want < 0 then ⟨.ok r', written, s⟩ else ⟨.error (closedEarly (want - written)), written, s⟩
    | .ok (false, r') =>
      let chunk := r'.slice want written
      match onBody s (r'.buffered.take chunk) with
      | (false, s) => ⟨.error sinkRejected, written, s⟩
      | (true, s) => pumpPlain (r'.consume chunk) want onBody s (written + chunk)
  else ⟨.ok r, written, s⟩
termination_by r.source.data.length
decreasing_by
  obtain ⟨h1, -, h2, h3⟩ := Reader.source_slice _hr _hw
  rw [h3, List.length_drop]
  omega

def Source.plain (source : Source) (want : ℤ) (written : ℕ) : Bytes × Except Halt Source :=
  let need := (want - written).toNat
  if want < 0 then
    (source.data, match source.stop with
      | .closed => .ok ⟨[], .closed⟩
      | .halted halt => .error halt)
  else if need ≤ source.data.length then
    (source.data.take need, .ok ⟨source.data.drop need, source.stop⟩)
  else
    (source.data, match source.stop with
      | .closed => .error (closedEarly (need - source.data.length))
      | .halted halt => .error halt)

theorem Source.plain_met (source : Source) (want : ℤ) (written : ℕ)
    (hw : ¬(want < 0 ∨ (written : ℤ) < want)) : source.plain want written = ([], .ok source) := by
  have hneed : (want - (written : ℤ)).toNat = 0 := by omega
  have hneg : ¬want < 0 := by omega
  simp [plain, hneed, hneg]

theorem Source.plain_halted (want : ℤ) (written : ℕ) (halt : Halt) (hw : want < 0 ∨ (written : ℤ) < want) :
    Source.plain ⟨[], .halted halt⟩ want written = ([], .error halt) := by
  by_cases hneg : want < 0
  · simp [plain, hneg]
  · have hneed : ¬(want - (written : ℤ)).toNat ≤ 0 := by omega
    simp [plain, hneg, -Int.toNat_sub', hneed]

theorem Source.plain_closed (want : ℤ) (written : ℕ) (hw : want < 0 ∨ (written : ℤ) < want) :
    Source.plain ⟨[], .closed⟩ want written =
      ([], if want < 0 then .ok ⟨[], .closed⟩ else .error (closedEarly (want - written))) := by
  by_cases hneg : want < 0
  · simp [plain, hneg]
  · have hneed : ¬(want - (written : ℤ)).toNat ≤ 0 := by omega
    have hval : ((want - (written : ℤ)).toNat : ℤ) = want - written := by omega
    simp only [plain, hneg, if_false, List.length_nil, hneed, hval, Nat.cast_zero, sub_zero]

theorem Source.plain_step (source : Source) (want : ℤ) (written k : ℕ) (hk : k ≤ source.data.length)
    (hw : want < 0 ∨ (written + k : ℕ) ≤ want) :
    source.plain want written =
      (source.data.take k ++ (Source.plain ⟨source.data.drop k, source.stop⟩ want (written + k)).1,
        (Source.plain ⟨source.data.drop k, source.stop⟩ want (written + k)).2) := by
  by_cases hneg : want < 0
  · simp [plain, hneg]
  · have hneed : (want - (written : ℤ)).toNat = k + (want - ((written + k : ℕ) : ℤ)).toNat := by omega
    simp only [plain, hneg, if_false, List.length_drop]
    by_cases hle : (want - (written : ℤ)).toNat ≤ source.data.length
    · rw [if_pos hle, if_pos (by omega), hneed, List.take_add, List.drop_drop]
    · rw [if_neg hle, if_neg (by omega), List.take_append_drop]
      rcases source.stop with _ | halt
      · simp only [Prod.mk.injEq, true_and, Except.error.injEq]
        congr 1
        omega
      · rfl

theorem Source.plain_taken {source rest : Source} {want : ℤ} {written : ℕ} (hwant : 0 ≤ want)
    (h : (source.plain want written).2 = .ok rest) :
    source.data = (source.plain want written).1 ++ rest.data ∧
      (source.plain want written).1.length = (want - written).toNat ∧ rest.stop = source.stop := by
  simp only [plain, if_neg (not_lt.mpr hwant)] at h ⊢
  split_ifs at h ⊢ with hle
  · simp only [Except.ok.injEq] at h
    rw [← h]
    exact ⟨(List.take_append_drop _ _).symm, List.length_take_of_le hle, rfl⟩
  · cases hs : source.stop <;> simp [hs] at h

theorem Source.plain_split {source rest : Source} {n : ℤ} (hn : 0 ≤ n) (h : (source.plain n 0).2 = .ok rest) :
    source.data = (source.plain n 0).1 ++ rest.data ∧ ((source.plain n 0).1.length : ℤ) = n ∧
      rest.stop = source.stop := by
  obtain ⟨hdata, hlength, hstop⟩ := plain_taken hn h
  exact ⟨hdata, by omega, hstop⟩

section Steps

variable {r r' : Reader} {want : ℤ} {written : ℕ} (f : BodyFn σ) (s : σ)

theorem pumpPlain_met (hw : ¬(want < 0 ∨ (written : ℤ) < want)) :
    pumpPlain r want f s written = ⟨.ok r, written, s⟩ := by
  rw [pumpPlain, dif_neg hw]

theorem pumpPlain_error {halt : Halt} (hw : want < 0 ∨ (written : ℤ) < want) (hr : r.refill = .error halt) :
    pumpPlain r want f s written = ⟨.error halt, written, s⟩ := by
  rw [pumpPlain, dif_pos hw]
  split <;> rename_i h <;> rw [hr] at h <;> cases h
  rfl

theorem pumpPlain_closed (hw : want < 0 ∨ (written : ℤ) < want) (hr : r.refill = .ok (true, r')) :
    pumpPlain r want f s written =
      ⟨if want < 0 then .ok r' else .error (closedEarly (want - written)), written, s⟩ := by
  rw [pumpPlain, dif_pos hw]
  split <;> rename_i h <;> rw [hr] at h <;> cases h
  split_ifs <;> rfl

theorem pumpPlain_slice (hw : want < 0 ∨ (written : ℤ) < want) (hr : r.refill = .ok (false, r')) :
    pumpPlain r want f s written =
      match f s (r'.buffered.take (r'.slice want written)) with
      | (false, s) => ⟨.error sinkRejected, written, s⟩
      | (true, s) => pumpPlain (r'.consume (r'.slice want written)) want f s (written + r'.slice want written) := by
  rw [pumpPlain, dif_pos hw]
  split <;> rename_i h <;> rw [hr] at h <;> cases h
  rfl

end Steps

/-- What a pump returns when `pieces` are what it hands to the sink and `outcome` is how it ends
if the sink takes them all. -/
def delivery {ρ : Type} (pieces : List Bytes) (outcome : Except Halt ρ) (written : ℕ) (f : BodyFn σ) (s : σ) :
    Pumped σ ρ :=
  ⟨if (feed f s pieces).done then outcome else .error sinkRejected,
    written + (feed f s pieces).taken.flatten.length, (feed f s pieces).state⟩

theorem delivery_cons {ρ : Type} (piece : Bytes) (pieces : List Bytes) (outcome : Except Halt ρ) (written : ℕ)
    (f : BodyFn σ) (s : σ) :
    delivery (piece :: pieces) outcome written f s =
      match f s piece with
      | (false, s) => ⟨.error sinkRejected, written, s⟩
      | (true, s) => delivery pieces outcome (written + piece.length) f s := by
  unfold delivery
  rw [feed]
  rcases f s piece with ⟨_ | _, t⟩
  · simp
  · simp [Nat.add_assoc]

theorem delivery_append {ρ : Type} (ps qs : List Bytes) (outcome : Except Halt ρ) (written : ℕ)
    (f : BodyFn σ) (s : σ) :
    delivery (ps ++ qs) outcome written f s =
      if (feed f s ps).done then
        delivery qs outcome (written + (feed f s ps).taken.flatten.length) f (feed f s ps).state
      else ⟨.error sinkRejected, written + (feed f s ps).taken.flatten.length, (feed f s ps).state⟩ := by
  unfold delivery
  rw [feed_append]
  by_cases h : (feed f s ps).done
  · simp [h, Nat.add_assoc]
  · simp [h]

def Piece (p : Bytes) : Prop := p ≠ [] ∧ p.length ≤ kReadBufferSize

theorem pumpPlain_delivery (r : Reader) (want : ℤ) (written : ℕ) :
    ∃ pieces outcome, (∀ p ∈ pieces, Piece p) ∧ pieces.flatten = (r.source.plain want written).1 ∧
      Except.map Reader.source outcome = (r.source.plain want written).2 ∧
      ∀ {σ : Type} (f : BodyFn σ) (s : σ), pumpPlain r want f s written = delivery pieces outcome written f s := by
  induction hn : r.source.data.length using Nat.strong_induction_on generalizing r written with
  | _ n ih =>
    by_cases hw : want < 0 ∨ (written : ℤ) < want
    · cases hr : r.refill with
      | error halt =>
        refine ⟨[], .error halt, by simp, ?_, ?_, fun f s => ?_⟩
        · rw [Reader.refill_error hr, Source.plain_halted want written halt hw, List.flatten_nil]
        · rw [Reader.refill_error hr, Source.plain_halted want written halt hw]
          rfl
        · rw [pumpPlain_error f s hw hr]
          rfl
      | ok p =>
        obtain ⟨_ | _, r'⟩ := p
        · obtain ⟨hpos, hle, hlen, hsrc⟩ := Reader.source_slice hr hw
          have hs := (Reader.refill_source hr).1
          obtain ⟨pieces, outcome, h1, h2, h3, h4⟩ :=
            ih _ (by rw [hsrc, List.length_drop]; omega) (r'.consume (r'.slice want written))
              (written + r'.slice want written) rfl
          have hbuf : r'.buffered.take (r'.slice want written) =
              r.source.data.take (r'.slice want written) := by
            rw [← hs, Reader.source, List.take_append_of_le_length (by rw [Reader.buffered_length]; exact hle)]
          have hsize : (r'.buffered.take (r'.slice want written)).length = r'.slice want written := by
            rw [List.length_take, Reader.buffered_length]
            omega
          have hstep := Source.plain_step r.source want written (r'.slice want written) hlen
            (by unfold Reader.slice; split_ifs <;> omega)
          refine ⟨r'.buffered.take (r'.slice want written) :: pieces, outcome, ?_, ?_, ?_, fun f s => ?_⟩
          · intro p hp
            rcases List.mem_cons.mp hp with rfl | hp
            · refine ⟨List.length_pos_iff.mp (by omega), ?_⟩
              have := r'.available_le
              unfold Reader.bufferedSize at hle
              omega
            · exact h1 p hp
          · rw [hstep, List.flatten_cons, h2, hsrc, hbuf]
          · rw [hstep, h3, hsrc]
          · rw [pumpPlain_slice f s hw hr, delivery_cons, hsize]
            rcases f s (r'.buffered.take (r'.slice want written)) with ⟨_ | _, t⟩
            · rfl
            · exact h4 f t
        · obtain ⟨h1, h2⟩ := Reader.refill_closed hr
          refine ⟨[], if want < 0 then .ok r' else .error (closedEarly (want - written)), by simp, ?_, ?_,
            fun f s => ?_⟩
          · rw [h1, Source.plain_closed want written hw, List.flatten_nil]
          · rw [h1, Source.plain_closed want written hw]
            split_ifs
            · rw [← h2]
              rfl
            · rfl
          · rw [pumpPlain_closed f s hw hr]
            rfl
    · refine ⟨[], .ok r, by simp, ?_, ?_, fun f s => ?_⟩
      · rw [Source.plain_met r.source want written hw, List.flatten_nil]
      · rw [Source.plain_met r.source want written hw]
        rfl
      · rw [pumpPlain_met f s hw]
        rfl

end BinderDownload.Http
