import BinderDownload.Lib.Text

namespace BinderDownload.Client

open Text

/-- `memset` at a place within an array; without a value it leaves the array. -/
def memset (bar : Bytes) (at' count : ℤ) (c : UInt8) : Option Bytes :=
  if 0 ≤ at' ∧ 0 ≤ count ∧ at' + count ≤ bar.length then
    some (bar.take at'.toNat ++ List.replicate count.toNat c ++ bar.drop (at' + count).toNat)
  else none

def int32 (n : ℤ) : Option ℤ := if -2 ^ 31 ≤ n ∧ n < 2 ^ 31 then some n else none

def filled (percent : ℤ) : Option ℤ :=
  if percent < 0 then some 0 else (int32 (percent * 40)).map (fun n => n.tdiv 100)

def paint (bar : Bytes) (percent : ℤ) : Option Bytes :=
  (filled percent).bind (fun filled =>
    (memset bar 0 filled 61).bind (fun bar =>
      (memset bar filled (40 - filled) 32).bind (fun bar => memset bar 40 1 0)))

variable {bar : Bytes} {percent : ℤ}

theorem filled_range (h : percent ≤ 100) : ∃ n : ℕ, filled percent = some (n : ℤ) ∧ n ≤ 40 := by
  unfold filled
  by_cases hneg : percent < 0
  · exact ⟨0, if_pos hneg, by omega⟩
  · have hfits : -2 ^ 31 ≤ percent * 40 ∧ percent * 40 < 2 ^ 31 := by omega
    have hdiv : (percent * 40).tdiv 100 = percent * 40 / 100 := Int.tdiv_eq_ediv_of_nonneg (by omega)
    refine ⟨(percent * 40 / 100).toNat, ?_, by omega⟩
    have hvalue : ((percent * 40 / 100).toNat : ℤ) = percent * 40 / 100 := by omega
    rw [if_neg hneg, int32, if_pos hfits, hvalue, Option.map_some, hdiv]

theorem memset_part (front old back : Bytes) (c : UInt8) {at' count : ℤ} (hat : at' = front.length)
    (hcount : count = old.length) :
    memset (front ++ old ++ back) at' count c = some (front ++ List.replicate old.length c ++ back) := by
  have hend : (at' + count).toNat = (front ++ old).length := by
    rw [List.length_append]
    omega
  have hstart : at'.toNat = front.length := by omega
  have hinside : 0 ≤ at' ∧ 0 ≤ count ∧ at' + count ≤ (front ++ old ++ back).length := by
    simp only [List.length_append]
    omega
  rw [memset, if_pos hinside, hend, hstart, List.drop_left, List.append_assoc front old, List.take_left, hcount,
    Int.toNat_natCast]

theorem paint_full (hbar : bar.length = 41) (h : percent ≤ 100) :
    ∃ n : ℕ, filled percent = some (n : ℤ) ∧
      paint bar percent = some (List.replicate n 61 ++ List.replicate (40 - n) 32 ++ [0]) := by
  obtain ⟨n, hn, hle⟩ := filled_range h
  refine ⟨n, hn, ?_⟩
  obtain ⟨done, rest, last, rfl, hdone, hrest, hlast⟩ :
      ∃ done rest last : Bytes, bar = done ++ rest ++ last ∧ done.length = n ∧ rest.length = 40 - n ∧
        last.length = 1 := by
    refine ⟨bar.take n, (bar.drop n).take (40 - n), (bar.drop n).drop (40 - n), ?_, ?_, ?_, ?_⟩
    · rw [List.append_assoc, List.take_append_drop, List.take_append_drop]
    · rw [List.length_take]
      omega
    · rw [List.length_take, List.length_drop]
      omega
    · rw [List.length_drop, List.length_drop]
      omega
  have hfirst := @memset_part [] done (rest ++ last) 61 0 n rfl (by rw [hdone])
  have hsecond := @memset_part (List.replicate n 61) rest last 32 n (40 - n) (by simp) (by omega)
  have hthird := @memset_part (List.replicate n 61 ++ List.replicate (40 - n) 32) last [] 0 40 1 (by simp; omega)
    (by omega)
  rw [hdone, List.nil_append, List.nil_append, ← List.append_assoc, ← List.append_assoc] at hfirst
  rw [hrest] at hsecond
  rw [hlast, List.append_nil, List.append_nil, List.replicate_one] at hthird
  rw [paint, hn, Option.bind_some, hfirst, Option.bind_some, hsecond, Option.bind_some, hthird]

end BinderDownload.Client
