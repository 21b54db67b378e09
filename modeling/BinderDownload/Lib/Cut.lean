import BinderDownload.Lib.Text

namespace BinderDownload.Text

variable {c : UInt8} {l r s : Bytes}

theorem first_split {p : UInt8 → Bool} (hl : ∀ b ∈ l, p b = false) (hr : ∀ b ∈ r.head?, p b = true) :
    ((l ++ r).findIdx? p).getD (l ++ r).length = l.length := by
  have hnone : l.findIdx? p = none := List.findIdx?_eq_none_iff.mpr hl
  rw [List.findIdx?_append, hnone]
  cases r with
  | nil => simp
  | cons b r => simp [List.findIdx?_cons, hr b rfl]

theorem first_cut (p : UInt8 → Bool) (s : Bytes) :
    ∃ l r, s = l ++ r ∧ (∀ b ∈ l, p b = false) ∧ ∀ b ∈ r.head?, p b = true := by
  refine ⟨s.takeWhile (fun b => !p b), s.dropWhile (fun b => !p b), ?_, fun b hb => ?_, fun b hb => ?_⟩
  · exact (List.takeWhile_append_dropWhile ..).symm
  · simpa using List.mem_takeWhile_imp hb
  · have h := List.head?_dropWhile_not (fun b => !p b) s
    rw [Option.mem_def.mp hb] at h
    simpa using h

theorem rdropWhile_append {p : UInt8 → Bool} (l : Bytes) (h : ∃ b ∈ r, p b = false) :
    (l ++ r).rdropWhile p = l ++ r.rdropWhile p := by
  have hne : r.reverse.dropWhile p ≠ [] := by
    intro hnil
    obtain ⟨b, hb, hp⟩ := h
    have hall := List.dropWhile_eq_nil_iff.mp hnil b (List.mem_reverse.mpr hb)
    rw [hp] at hall
    cases hall
  rw [List.rdropWhile, List.reverse_append, List.dropWhile_append, if_neg (by simpa using hne), List.reverse_append,
    List.reverse_reverse]
  rfl

theorem rdropWhile_head {p : UInt8 → Bool} {b : UInt8} (hb : p b = false) (s : Bytes) :
    ((b :: s).rdropWhile p).head? = some b := by
  obtain ⟨tail, htail⟩ := List.rdropWhile_prefix p (b :: s)
  cases hr : (b :: s).rdropWhile p with
  | nil =>
    have hall := List.rdropWhile_eq_nil_iff.mp hr b List.mem_cons_self
    rw [hb] at hall
    cases hall
  | cons c ds =>
    rw [hr] at htail
    cases htail
    rfl

theorem trim_subset {b : UInt8} (h : b ∈ trim s) : b ∈ s :=
  (List.dropWhile_suffix _).subset ((List.rdropWhile_prefix _ _).subset h)

def upTo (c : UInt8) (s : Bytes) : Bytes := s.takeWhile (fun b => b != c)

def behind (c : UInt8) (s : Bytes) : Bytes := s.rtakeWhile (fun b => b != c)

def through (c : UInt8) (s : Bytes) : Bytes := s.rdropWhile (fun b => b != c)

theorem upTo_self (h : c ∉ s) : upTo c s = s := by
  apply List.takeWhile_eq_self_iff.mpr
  intro b hb
  simpa using fun hc : b = c => h (hc ▸ hb)

theorem upTo_split (l r : Bytes) (h : c ∉ l) : upTo c (l ++ r) = l ++ upTo c r := by
  apply List.takeWhile_append_of_pos
  intro b hb
  simpa using fun hc : b = c => h (hc ▸ hb)

@[simp] theorem upTo_cons_self (c : UInt8) (r : Bytes) : upTo c (c :: r) = [] := by simp [upTo]

theorem upTo_find {i : ℕ} (h : find c s = some i) : s.take i = upTo c s := by
  obtain ⟨l, r, rfl, hl, rfl⟩ := find_some h
  rw [upTo_split l _ hl, upTo_cons_self, List.append_nil, List.take_left]

theorem not_mem_find (h : find c s = none) : c ∉ s := by
  intro hc
  obtain ⟨l, r, rfl, hl⟩ := List.eq_append_cons_of_mem hc
  rw [find_split c l r hl] at h
  cases h

theorem upTo_cons {b : UInt8} (h : b ≠ c) (s : Bytes) : upTo c (b :: s) = b :: upTo c s := by simp [upTo, h]

theorem not_mem_upTo (c : UInt8) (s : Bytes) : c ∉ upTo c s := by
  intro h
  simpa using List.mem_takeWhile_imp h

theorem behind_self (h : c ∉ s) : behind c s = s := by
  apply List.rtakeWhile_eq_self_iff.mpr
  intro b hb
  simpa using fun hc : b = c => h (hc ▸ hb)

theorem behind_split (l : Bytes) (h : c ∉ r) : behind c (l ++ c :: r) = r := by
  have hr : ∀ b ∈ r.reverse, (b != c) = true := by
    intro b hb
    simpa using fun hc : b = c => h (hc ▸ List.mem_reverse.mp hb)
  rw [behind, List.rtakeWhile, List.reverse_append, List.reverse_cons, List.append_assoc,
    List.takeWhile_append_of_pos hr]
  simp

theorem rfind_some {i : ℕ} (h : rfind c s = some i) : ∃ l r, s = l ++ c :: r ∧ c ∉ r ∧ i = l.length := by
  have hc : c ∈ s := by
    by_contra hc
    rw [rfind_none c s hc] at h
    cases h
  obtain ⟨l, r, rfl, hr⟩ := split_last hc
  rw [rfind_split c l r hr] at h
  exact ⟨l, r, rfl, hr, (Option.some.inj h).symm⟩

theorem not_mem_rfind (h : rfind c s = none) : c ∉ s := by
  intro hc
  obtain ⟨l, r, rfl, hr⟩ := split_last hc
  rw [rfind_split c l r hr] at h
  cases h

theorem behind_rfind {i : ℕ} (h : rfind c s = some i) : s.drop (i + 1) = behind c s := by
  obtain ⟨l, r, rfl, hr, rfl⟩ := rfind_some h
  rw [behind_split l hr]
  simp [List.drop_append]

theorem not_mem_behind (c : UInt8) (s : Bytes) : c ∉ behind c s := by
  intro h
  simpa using List.mem_rtakeWhile_imp h

theorem mem_of_behind {b : UInt8} (h : b ∈ behind c s) : b ∈ s :=
  (List.rtakeWhile_suffix _ s).subset h

theorem through_split (l : Bytes) (h : c ∉ r) : through c (l ++ c :: r) = l ++ [c] := by
  have hr : ∀ b ∈ r.reverse, (b != c) = true := by
    intro b hb
    simpa using fun hc : b = c => h (hc ▸ List.mem_reverse.mp hb)
  rw [through, List.rdropWhile, List.reverse_append, List.reverse_cons, List.append_assoc,
    List.dropWhile_append_of_pos hr]
  simp

theorem through_rfind {i : ℕ} (h : rfind c s = some i) : s.take (i + 1) = through c s := by
  obtain ⟨l, r, rfl, hr, rfl⟩ := rfind_some h
  rw [through_split l hr, List.take_append]
  simp

theorem mem_through_getLast (h : c ∈ s) : (through c s).getLast? = some c := by
  obtain ⟨l, r, rfl, hr⟩ := split_last h
  rw [through_split l hr, List.getLast?_concat]

theorem through_append (h : c ∈ r) : through c (l ++ r) = l ++ through c r := by
  obtain ⟨as, bs, rfl, hbs⟩ := split_last h
  rw [← List.append_assoc, through_split _ hbs, through_split _ hbs, List.append_assoc]

theorem through_front (h : c ∈ l) (hr : c ∉ r) : through c (l ++ r) = through c l := by
  obtain ⟨as, bs, rfl, hbs⟩ := split_last h
  rw [List.append_assoc, List.cons_append, through_split as (by simp [hbs, hr]), through_split as hbs]

theorem findText_split {cs : Bytes} (l r : Bytes) (h : c ∉ l) :
    findText (c :: cs) (l ++ (c :: cs ++ r)) = some l.length := by
  induction l with
  | nil =>
    have hpre : (c :: cs).isPrefixOf (c :: cs ++ r) = true := List.isPrefixOf_iff_prefix.mpr (List.prefix_append _ _)
    rw [List.nil_append, List.cons_append, findText, ← List.cons_append, if_pos hpre]
    rfl
  | cons b l ih =>
    have hne : c ≠ b := fun hc => h (hc ▸ List.mem_cons_self)
    have hpre : ¬(c :: cs).isPrefixOf (b :: (l ++ (c :: cs ++ r))) = true := by
      simp [List.isPrefixOf, hne]
    rw [List.cons_append, findText, if_neg hpre, ih (fun hc => h (List.mem_cons_of_mem _ hc))]
    rfl

theorem findText_some {needle : Bytes} {i : ℕ} (h : findText needle s = some i) :
    s = s.take i ++ (needle ++ s.drop (i + needle.length)) := by
  induction s generalizing i with
  | nil =>
    simp only [findText] at h
    split_ifs at h with hn
    simp [List.isEmpty_iff.mp hn]
  | cons b s ih =>
    rw [findText] at h
    split_ifs at h with hpre
    · cases h
      obtain ⟨r, hr⟩ := List.isPrefixOf_iff_prefix.mp hpre
      rw [← hr, List.take_zero, List.nil_append, Nat.zero_add, List.drop_left]
    · obtain ⟨j, hj, rfl⟩ := Option.map_eq_some_iff.mp h
      have hs := ih hj
      rw [List.take_succ_cons, List.cons_append, Nat.add_right_comm, List.drop_succ_cons, ← hs]

theorem findText_infix {needle : Bytes} : (findText needle s).isSome = true ↔ needle <:+: s := by
  induction s with
  | nil => simp [findText]
  | cons b s ih =>
    rw [findText, List.infix_cons_iff, ← ih, ← List.isPrefixOf_iff_prefix]
    split_ifs with hpre
    · simp [hpre]
    · simp [hpre]

theorem infix_split {needle : Bytes} (l r : Bytes) (h : c ∉ needle) :
    needle <:+: l ++ c :: r ↔ needle <:+: l ∨ needle <:+: r := by
  constructor
  · intro hinfix
    rcases List.infix_append_iff_ne_nil.mp hinfix with hl | hr | ⟨as, bs, -, hbs, rfl, -, hpre⟩
    · exact .inl hl
    · rcases List.infix_cons_iff.mp hr with hpre | hr
      · cases needle with
        | nil => exact .inl (List.nil_infix)
        | cons b needle =>
          obtain ⟨rfl, -⟩ := List.cons_prefix_cons.mp hpre
          exact absurd List.mem_cons_self h
      · exact .inr hr
    · cases bs with
      | nil => exact absurd rfl hbs
      | cons b bs =>
        obtain ⟨rfl, -⟩ := List.cons_prefix_cons.mp hpre
        exact absurd (List.mem_append_right as List.mem_cons_self) h
  · rintro (hl | hr)
    · exact List.infix_append_of_infix_left hl
    · exact List.infix_append_of_infix_right (hr.trans (List.suffix_cons c r).isInfix)

end BinderDownload.Text
