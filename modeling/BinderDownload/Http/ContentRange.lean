import BinderDownload.Lib.Cut
import BinderDownload.Http.Message

namespace BinderDownload.Http

open Text

theorem digit_range (c : UInt8) (h : isDigit 10 c = true) : isspace c = false ∧ c ≠ 45 ∧ c ≠ 47 ∧ c ≠ 42 := by
  revert c
  decide +kernel

def ContentRange (value : Bytes) (start total : ℤ) : Prop :=
  ∃ (unit first last size : Bytes) (n m : ℕ), value = unit ++ 32 :: (first ++ 45 :: (last ++ 47 :: size)) ∧
    unit ≠ [] ∧ 32 ∉ unit ∧ Spells 10 first n ∧ Spells 10 last m ∧ n ≤ m ∧ m < 2 ^ 63 ∧ start = n ∧
    (size = ascii "*" ∧ total = -1 ∨ ∃ k : ℕ, Spells 10 size k ∧ m < k ∧ k < 2 ^ 63 ∧ total = k)

def rangeOf (value : Bytes) : Bytes := trim ((value.dropWhile (fun c => c != 32)).drop 1)

/-- The delimiters are there: a space, and behind it a dash in front of the first slash. -/
def Delimited (value : Bytes) : Prop := 32 ∈ value ∧ 47 ∈ rangeOf value ∧ 45 ∈ upTo 47 (rangeOf value)

instance : DecidablePred Delimited := fun _ => inferInstanceAs (Decidable (_ ∧ _))

theorem rangeOf_split {unit : Bytes} (range : Bytes) (h : 32 ∉ unit) : rangeOf (unit ++ 32 :: range) = trim range := by
  have hunit : ∀ c ∈ unit, (c != 32) = true := by
    intro c hc
    simpa using fun h32 : c = 32 => h (h32 ▸ hc)
  rw [rangeOf, List.dropWhile_append_of_pos hunit]
  simp

theorem parseContentRange_delimited {value first last size : Bytes} (h : 32 ∈ value)
    (hrange : rangeOf value = first ++ 45 :: (last ++ 47 :: size)) (hfirst : 45 ∉ first ∧ 47 ∉ first)
    (hlast : 47 ∉ last) :
    parseContentRange value =
      some ((strtoll (rangeOf value) 10).1, if size = ascii "*" then -1 else (strtoll size 10).1) := by
  obtain ⟨unit, range, rfl, hunit⟩ := List.eq_append_cons_of_mem h
  rw [rangeOf_split range hunit] at hrange ⊢
  have hsplit : trim range = (first ++ 45 :: last) ++ 47 :: size := by
    rw [hrange]
    simp
  have hdash : find 45 (trim range) = some first.length := by
    rw [hrange]
    exact find_split 45 first _ hfirst.1
  have hslash : find 47 (trim range) = some (first ++ 45 :: last).length := by
    rw [hsplit]
    apply find_split
    simp [hfirst.2, hlast]
  have hsize : (trim range).drop ((first ++ 45 :: last).length + 1) = size := by
    rw [hsplit, ← List.drop_drop, List.drop_left' rfl]
    rfl
  have hdrop : (unit ++ 32 :: range).drop (unit.length + 1) = range := by
    rw [← List.drop_drop, List.drop_left' rfl]
    rfl
  simp only [parseContentRange, find_split 32 unit range hunit, hdrop, hdash, hslash, hsize]
  rw [if_neg (by simp)]

theorem parseContentRange_undelimited {value : Bytes} (h : ¬Delimited value) : parseContentRange value = none := by
  unfold parseContentRange
  cases hsp : find 32 value with
  | none => rfl
  | some sp =>
    obtain ⟨unit, range, rfl, hunit, rfl⟩ := find_some hsp
    have hdrop : (unit ++ 32 :: range).drop (unit.length + 1) = range := by
      rw [← List.drop_drop, List.drop_left' rfl]
      rfl
    simp only [hdrop]
    cases hdash : find 45 (trim range) with
    | none => rfl
    | some dash =>
      cases hslash : find 47 (trim range) with
      | none => rfl
      | some slash =>
        dsimp only
        by_cases horder : slash < dash
        · rw [if_pos horder]
        · exfalso
          apply h
          obtain ⟨first, rest, hfirst, -, rfl⟩ := find_some hdash
          obtain ⟨front, size, hfront, hno, rfl⟩ := find_some hslash
          refine ⟨by simp, ?_, ?_⟩
          · rw [rangeOf_split range hunit, hfront]
            simp
          · rw [rangeOf_split range hunit, hfront, upTo_split _ _ hno, upTo_cons_self, List.append_nil]
            rcases List.append_eq_append_iff.mp (hfirst.symm.trans hfront) with ⟨mid, rfl, hmid⟩ | ⟨mid, rfl, hmid⟩
            · cases mid with
              | nil => cases hmid
              | cons c mid =>
                cases hmid
                simp
            · cases mid with
              | nil => cases hmid
              | cons c mid =>
                simp only [List.length_append, List.length_cons] at horder
                omega

theorem Delimited.split {value : Bytes} (h : Delimited value) :
    ∃ first last size, rangeOf value = first ++ 45 :: (last ++ 47 :: size) ∧ (45 ∉ first ∧ 47 ∉ first) ∧ 47 ∉ last := by
  obtain ⟨front, size, hfront, hno⟩ := List.eq_append_cons_of_mem h.2.1
  have hdash := h.2.2
  rw [hfront, upTo_split _ _ hno, upTo_cons_self, List.append_nil] at hdash
  obtain ⟨first, last, rfl, hfirst⟩ := List.eq_append_cons_of_mem hdash
  simp only [List.mem_append, List.mem_cons, not_or] at hno
  exact ⟨first, last, size, by rw [hfront]; simp, ⟨hfirst, hno.1⟩, hno.2.2⟩

theorem Delimited.accepted {value : Bytes} (h : Delimited value) : (parseContentRange value).isSome := by
  obtain ⟨first, last, size, hrange, hfirst, hlast⟩ := h.split
  rw [parseContentRange_delimited h.1 hrange hfirst hlast]
  rfl

theorem ContentRange.reads {value : Bytes} {start total : ℤ} (h : ContentRange value start total) :
    parseContentRange value = some (start, total) := by
  obtain ⟨unit, first, last, size, n, m, rfl, -, hunit, hfirst, hlast, hle, hm, rfl, hsize⟩ := h
  have hdigit {ds : Bytes} {n : ℕ} (hds : Spells 10 ds n) {c : UInt8} (hc : c ∈ ds) := digit_range c (hds.2.1 c hc)
  have hend : ∀ c ∈ size.getLast?, isspace c = false := by
    intro c hc
    rcases hsize with ⟨rfl, -⟩ | ⟨k, hk, -⟩
    · cases hc
      decide
    · exact (hdigit hk (List.mem_of_getLast? hc)).1
  have hne : size ≠ [] := by
    rcases hsize with ⟨rfl, -⟩ | ⟨k, hk, -⟩
    · decide
    · exact hk.1
  have htrim : trim (first ++ 45 :: (last ++ 47 :: size)) = first ++ 45 :: (last ++ 47 :: size) := by
    apply trim_trimmed
    constructor
    · intro c hc
      rw [List.head?_append_of_ne_nil _ hfirst.1] at hc
      exact (hdigit hfirst (List.mem_of_mem_head? hc)).1
    · intro c hc
      rw [show first ++ 45 :: (last ++ 47 :: size) = (first ++ 45 :: (last ++ [47])) ++ size by simp,
        List.getLast?_append_of_ne_nil _ hne] at hc
      exact hend c hc
  have hrange := (rangeOf_split (first ++ 45 :: (last ++ 47 :: size)) hunit).trans htrim
  rw [parseContentRange_delimited (by simp) hrange
    ⟨fun hc => (hdigit hfirst hc).2.1 rfl, fun hc => (hdigit hfirst hc).2.2.1 rfl⟩
    (fun hc => (hdigit hlast hc).2.2.1 rfl), hrange,
    strtoll_decimal first _ n hfirst (by simp; decide), clamp_nat n (by omega)]
  rcases hsize with ⟨rfl, rfl⟩ | ⟨k, hk, -, hk63, rfl⟩
  · rfl
  · have hstar : size ≠ ascii "*" := by
      rintro rfl
      exact (hdigit hk (c := 42) (by decide)).2.2.2 rfl
    have htotal := strtoll_decimal size [] k hk (by simp)
    rw [List.append_nil, clamp_nat k hk63] at htotal
    rw [if_neg hstar, htotal]

theorem parseContentRange_grammar (value : Bytes) :
    ((∀ start total, parseContentRange value = some (start, total) ↔ ContentRange value start total) ∧
      ∀ (request : Request) (headers : Headers), headers.get (ascii "Content-Range") = value →
        (∀ start total, ¬ContentRange value start total) →
          (placement request 206 headers).1 = request.resumeFrom) ↔
      (∃ start total, ContentRange value start total) ∨ ¬Delimited value := by
  constructor
  · rintro ⟨hreads, -⟩
    by_cases hdelimited : Delimited value
    · obtain ⟨range, hrange⟩ := Option.isSome_iff_exists.mp hdelimited.accepted
      exact .inl ⟨range.1, range.2, (hreads _ _).mp hrange⟩
    · exact .inr hdelimited
  · intro hvalue
    have hreads : ∀ start total, parseContentRange value = some (start, total) ↔ ContentRange value start total := by
      intro start total
      refine ⟨fun hsome => ?_, ContentRange.reads⟩
      rcases hvalue with ⟨start', total', h⟩ | h
      · rw [h.reads] at hsome
        cases hsome
        exact h
      · rw [parseContentRange_undelimited h] at hsome
        cases hsome
    refine ⟨hreads, fun request headers hget hno => ?_⟩
    have hnone : parseContentRange value = none := by
      cases hparse : parseContentRange value with
      | none => rfl
      | some range => exact absurd ((hreads range.1 range.2).mp hparse) (hno _ _)
    simp only [placement, if_true, hget, hnone]

theorem parseContentRange_letters :
    parseContentRange (ascii "bytes x-y/z") = some (0, 0) ∧
      ∀ start total, ¬ContentRange (ascii "bytes x-y/z") start total := by
  have hzero : parseContentRange (ascii "bytes x-y/z") = some (0, 0) := by decide +kernel
  refine ⟨hzero, fun start total h => ?_⟩
  have hreads := h.reads
  rw [hzero] at hreads
  cases hreads
  obtain ⟨-, -, -, -, n, m, -, -, -, -, -, -, -, -, ⟨-, htotal⟩ | ⟨k, -, hlt, -, htotal⟩⟩ := h
  · cases htotal
  · omega

end BinderDownload.Http
