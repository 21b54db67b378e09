import Mathlib

/-!
Byte strings and the parts of the C and C++ string libraries that work on them.
A character is a byte, and the character classes are those of the "C" locale.
-/

namespace BinderDownload.Text

abbrev Bytes := List UInt8

def ascii (s : String) : Bytes := s.toList.map (fun c => c.toNat.toUInt8)

def isspace (c : UInt8) : Bool := c == 32 || (9 ≤ c && c ≤ 13)

def tolower (c : UInt8) : UInt8 := if 65 ≤ c ∧ c ≤ 90 then c + 32 else c

def toLower (s : Bytes) : Bytes := s.map tolower

def trim (s : Bytes) : Bytes := (s.dropWhile isspace).rdropWhile isspace

def find (c : UInt8) (s : Bytes) : Option ℕ := s.findIdx? (fun b => b == c)

def rfind (c : UInt8) (s : Bytes) : Option ℕ :=
  (find c s.reverse).map (fun i => s.length - 1 - i)

def findFirstOf (set s : Bytes) : Option ℕ := s.findIdx? (fun b => set.contains b)

def findFrom (c : UInt8) (pos : ℕ) (s : Bytes) : Option ℕ := (find c (s.drop pos)).map (fun i => i + pos)

def rfindTo (c : UInt8) (pos : ℕ) (s : Bytes) : Option ℕ := rfind c (s.take (pos + 1))

def findText (needle : Bytes) : Bytes → Option ℕ
  | [] => if needle.isEmpty then some 0 else none
  | c :: s => if needle.isPrefixOf (c :: s) then some 0 else (findText needle s).map (fun i => i + 1)

def Trimmed (s : Bytes) : Prop :=
  (∀ c ∈ s.head?, isspace c = false) ∧ (∀ c ∈ s.getLast?, isspace c = false)

instance (s : Bytes) : Decidable (Trimmed s) := inferInstanceAs (Decidable (_ ∧ _))

section Strip

variable {p : UInt8 → Bool}

theorem strip_pad (l s r : Bytes) (hl : ∀ c ∈ l, p c = true) (hr : ∀ c ∈ r, p c = true)
    (hhead : ∀ c ∈ s.head?, p c = false) (hlast : ∀ c ∈ s.getLast?, p c = false) :
    ((l ++ s ++ r).dropWhile p).rdropWhile p = s := by
  have hdrop : (l ++ s ++ r).dropWhile p = (s ++ r).dropWhile p := by
    rw [List.append_assoc, List.dropWhile_append_of_pos hl]
  cases s with
  | nil =>
    have hnil : r.dropWhile p = [] := List.dropWhile_eq_nil_iff.mpr hr
    rw [hdrop, List.nil_append, hnil, List.rdropWhile_nil]
  | cons c s =>
    have hc : p c = false := hhead c rfl
    have hkeep : (c :: s ++ r).dropWhile p = c :: s ++ r := by simp [hc]
    have hend : p ((c :: s).getLast (by simp)) = false :=
      hlast _ (List.getLast?_eq_getLast_of_ne_nil (by simp))
    rw [hdrop, hkeep, List.rdropWhile, List.reverse_append,
      List.dropWhile_append_of_pos (fun b hb => hr b (List.mem_reverse.mp hb))]
    change List.rdropWhile p (c :: s) = c :: s
    exact List.rdropWhile_eq_self_iff.mpr (fun _ => by simpa using hend)

theorem strip_ends (s : Bytes) :
    (∀ c ∈ ((s.dropWhile p).rdropWhile p).head?, p c = false) ∧
      ∀ c ∈ ((s.dropWhile p).rdropWhile p).getLast?, p c = false := by
  constructor
  · intro c hc
    have hhead := List.head?_dropWhile_not p s
    obtain ⟨tail, htail⟩ := List.rdropWhile_prefix p (l := s.dropWhile p)
    rw [← htail, List.head?_append, Option.mem_def.mp hc] at hhead
    exact hhead
  · intro c hc
    have hne : (s.dropWhile p).rdropWhile p ≠ [] := List.ne_nil_of_mem (List.mem_of_getLast? hc)
    have hlast := List.rdropWhile_last_not p _ hne
    rw [List.getLast?_eq_getLast_of_ne_nil hne, Option.mem_def, Option.some.injEq] at hc
    rw [hc] at hlast
    simpa using hlast

end Strip

theorem trim_pad (l s r : Bytes) (hl : ∀ c ∈ l, isspace c = true) (hr : ∀ c ∈ r, isspace c = true)
    (hs : Trimmed s) : trim (l ++ s ++ r) = s := strip_pad l s r hl hr hs.1 hs.2

theorem trim_trimmed (s : Bytes) (hs : Trimmed s) : trim s = s := by
  simpa using trim_pad [] s [] (by simp) (by simp) hs

theorem find_split (c : UInt8) (l r : Bytes) (hl : c ∉ l) : find c (l ++ c :: r) = some l.length := by
  have hnone : l.findIdx? (fun b => b == c) = none := by
    rw [List.findIdx?_eq_none_iff]
    intro b hb
    simpa using fun h : b = c => hl (h ▸ hb)
  simp [find, List.findIdx?_append, hnone, List.findIdx?_cons]

theorem find_none (c : UInt8) (s : Bytes) (hs : c ∉ s) : find c s = none := by
  rw [find, List.findIdx?_eq_none_iff]
  intro b hb
  simpa using fun h : b = c => hs (h ▸ hb)

theorem find_some {c : UInt8} {s : Bytes} {i : ℕ} (h : find c s = some i) :
    ∃ l r, s = l ++ c :: r ∧ c ∉ l ∧ i = l.length := by
  have hc : c ∈ s := by
    by_contra hc
    simp [find_none c s hc] at h
  obtain ⟨l, r, rfl, hl⟩ := List.eq_append_cons_of_mem hc
  rw [find_split c l r hl] at h
  exact ⟨l, r, rfl, hl, (Option.some.inj h).symm⟩

theorem rfind_split (c : UInt8) (l r : Bytes) (hr : c ∉ r) : rfind c (l ++ c :: r) = some l.length := by
  have hfind : find c (l ++ c :: r).reverse = some r.length := by
    rw [List.reverse_append, List.reverse_cons, List.append_assoc]
    simpa using find_split c r.reverse l.reverse (by simpa using hr)
  rw [rfind, hfind]
  simp only [Option.map_some, List.length_append, List.length_cons]
  congr 1
  omega

theorem rfind_none (c : UInt8) (s : Bytes) (hs : c ∉ s) : rfind c s = none := by
  rw [rfind, find_none c _ (by simpa using hs)]
  rfl

theorem split_last {c : UInt8} {s : Bytes} (hc : c ∈ s) : ∃ l r, s = l ++ c :: r ∧ c ∉ r := by
  obtain ⟨r, l, hs, hr⟩ := List.eq_append_cons_of_mem (List.mem_reverse.mpr hc)
  refine ⟨l.reverse, r.reverse, ?_, by simpa using hr⟩
  rw [← List.reverse_reverse s, hs]
  simp

theorem rfindTo_split (c d : UInt8) (l r : Bytes) (hcd : c ≠ d) : rfindTo c l.length (l ++ d :: r) = rfind c l := by
  have htake : (l ++ d :: r).take (l.length + 1) = l ++ [d] := by simp [List.take_append]
  rw [rfindTo, htake]
  by_cases hc : c ∈ l
  · obtain ⟨as, bs, rfl, hbs⟩ := split_last hc
    rw [rfind_split c as bs hbs, List.append_assoc, List.cons_append]
    apply rfind_split
    simp [hbs, hcd]
  · rw [rfind_none c l hc]
    apply rfind_none
    simp [hc, hcd]

def digitVal (c : UInt8) : ℕ :=
  if 48 ≤ c ∧ c ≤ 57 then c.toNat - 48
  else if 65 ≤ c ∧ c ≤ 90 then c.toNat - 55
  else if 97 ≤ c ∧ c ≤ 122 then c.toNat - 87
  else 36

def isDigit (base : ℕ) (c : UInt8) : Bool := digitVal c < base

def value (base : ℕ) (ds : Bytes) : ℕ := ds.foldl (fun n c => n * base + digitVal c) 0

def clamp (n : ℤ) : ℤ := max (-2 ^ 63) (min n (2 ^ 63 - 1))

def sign : Bytes → Bool × Bytes
  | 45 :: s => (true, s)
  | 43 :: s => (false, s)
  | s => (false, s)

/-- In base 16 a `0x` is skipped, but only in front of a digit. -/
def skipPrefix (base : ℕ) : Bytes → Bytes
  | 48 :: x :: d :: s => if base = 16 ∧ (x = 120 ∨ x = 88) ∧ isDigit 16 d then d :: s else 48 :: x :: d :: s
  | s => s

def strtoll (s : Bytes) (base : ℕ) : ℤ × ℕ :=
  let (neg, t) := sign (s.dropWhile isspace)
  let t := skipPrefix base t
  let ds := t.takeWhile (isDigit base)
  if ds = [] then (0, 0)
  else (clamp (if neg then -(value base ds) else value base ds), s.length - (t.length - ds.length))

def toInt32 (n : ℤ) : ℤ := (n + 2 ^ 31) % 2 ^ 32 - 2 ^ 31

theorem toInt32_small {n : ℤ} (hlo : -2 ^ 31 ≤ n) (hhi : n < 2 ^ 31) : toInt32 n = n := by
  unfold toInt32
  omega

def atoi (s : Bytes) : ℤ := toInt32 (strtoll s 10).1

def decimal (n : ℕ) : Bytes := (Nat.toDigits 10 n).map (fun c => c.toNat.toUInt8)

def toText : ℤ → Bytes
  | .ofNat n => decimal n
  | .negSucc n => 45 :: decimal (n + 1)

def Spells (base : ℕ) (ds : Bytes) (n : ℕ) : Prop :=
  ds ≠ [] ∧ (∀ c ∈ ds, isDigit base c = true) ∧ value base ds = n

instance (base : ℕ) (ds : Bytes) (n : ℕ) : Decidable (Spells base ds n) := inferInstanceAs (Decidable (_ ∧ _))

theorem digit_class (c : UInt8) (h : isDigit 16 c = true) :
    isspace c = false ∧ c ≠ 45 ∧ c ≠ 43 ∧ c ≠ 120 ∧ c ≠ 88 := by
  revert c
  decide +kernel

theorem isDigit_mono (c : UInt8) (h : isDigit 10 c = true) : isDigit 16 c = true := by
  simp only [isDigit, decide_eq_true_eq] at *
  omega

theorem sign_digit (c : UInt8) (s : Bytes) (h : isDigit 16 c = true) :
    sign ((c :: s).dropWhile isspace) = (false, c :: s) := by
  obtain ⟨hspace, hminus, hplus, -⟩ := digit_class c h
  rw [List.dropWhile_cons_of_neg (by simp [hspace])]
  unfold sign
  split <;> simp_all

theorem takeWhile_digits (base : ℕ) (ds rest : Bytes) (hd : ∀ c ∈ ds, isDigit base c = true)
    (hr : ∀ c ∈ rest.head?, isDigit base c = false) : (ds ++ rest).takeWhile (isDigit base) = ds := by
  rw [List.takeWhile_append_of_pos hd]
  cases rest with
  | nil => simp
  | cons c rest => simp [hr c rfl]

theorem strtoll_decimal (ds rest : Bytes) (n : ℕ) (hds : Spells 10 ds n)
    (hr : ∀ c ∈ rest.head?, isDigit 10 c = false) : (strtoll (ds ++ rest) 10).1 = clamp n := by
  obtain ⟨hne, hd, hv⟩ := hds
  obtain ⟨c, cs, rfl⟩ := List.exists_cons_of_ne_nil hne
  have hskip : skipPrefix 10 (c :: cs ++ rest) = c :: cs ++ rest := by
    unfold skipPrefix
    split <;> simp_all
  rw [strtoll, List.cons_append, sign_digit c _ (isDigit_mono c (hd c (by simp)))]
  simp only [← List.cons_append, hskip, takeWhile_digits 10 (c :: cs) rest hd hr, hv]
  simp

theorem strtoll_hex (ds : Bytes) (n : ℕ) (hds : Spells 16 ds n) :
    strtoll ds 16 = (clamp n, ds.length) := by
  obtain ⟨hne, hd, hv⟩ := hds
  obtain ⟨c, cs, rfl⟩ := List.exists_cons_of_ne_nil hne
  have hskip : skipPrefix 16 (c :: cs) = c :: cs := by
    unfold skipPrefix
    split
    · rename_i x d s heq
      have hx : isDigit 16 x = true := hd x (by simp [heq])
      obtain ⟨-, -, -, h1, h2⟩ := digit_class x hx
      rw [heq]
      simp [h1, h2]
    · rfl
  have hall := takeWhile_digits 16 (c :: cs) [] hd (by simp)
  rw [List.append_nil] at hall
  rw [strtoll, sign_digit c cs (hd c (by simp))]
  simp [hskip, hall, hv]

theorem digitVal_char (c : Char) (h : c.isDigit) : digitVal c.toNat.toUInt8 = c.toNat - '0'.toNat := by
  rw [Char.isDigit_iff_toNat] at h
  change 48 ≤ c.toNat ∧ c.toNat ≤ 57 at h
  have hmod : c.toNat.toUInt8.toNat = c.toNat := Nat.mod_eq_of_lt (by omega)
  have hrange : (48 : UInt8) ≤ c.toNat.toUInt8 ∧ c.toNat.toUInt8 ≤ 57 := by
    rw [UInt8.le_iff_toNat_le, UInt8.le_iff_toNat_le, hmod]
    exact h
  rw [digitVal, if_pos hrange, hmod]
  rfl

theorem decimal_spells (n : ℕ) : Spells 10 (decimal n) n := by
  have hdigit : ∀ c ∈ Nat.toDigits 10 n, c.isDigit := fun c hc =>
    Nat.isDigit_of_mem_toDigits (by omega) (by omega) hc
  refine ⟨by simp [decimal, Nat.toDigits_ne_nil], ?_, ?_⟩
  · intro b hb
    obtain ⟨c, hc, rfl⟩ := List.mem_map.mp hb
    have h := Char.isDigit_iff_toNat.mp (hdigit c hc)
    change 48 ≤ c.toNat ∧ c.toNat ≤ 57 at h
    rw [isDigit, digitVal_char c (hdigit c hc), decide_eq_true_eq]
    change c.toNat - 48 < 10
    omega
  · rw [value, decimal, List.foldl_map]
    refine Eq.trans ?_ Nat.ofDigitChars_ten_toDigits
    rw [Nat.ofDigitChars_eq_foldl]
    apply List.foldl_ext
    intro a c hc
    rw [digitVal_char c (hdigit c hc), Nat.mul_comm]

theorem clamp_nat (n : ℕ) (h : n < 2 ^ 63) : clamp n = n := by
  simp only [clamp]
  omega

end BinderDownload.Text
