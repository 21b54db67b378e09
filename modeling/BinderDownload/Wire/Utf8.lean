import BinderDownload.Wire.Unicode

namespace BinderDownload.Wire

open Text

def utf8 (cs : List Char) : Bytes := cs.flatMap String.utf8EncodeChar

def ValidUtf8 (s : Bytes) : Prop := ∃ cs, s = utf8 cs

def utf16Char (c : Char) : List UInt16 :=
  if c.toNat < 0x10000 then [UInt16.ofNat c.toNat]
  else [UInt16.ofNat ((c.toNat - 0x10000) / 0x400 + 0xD800), UInt16.ofNat ((c.toNat - 0x10000) % 0x400 + 0xDC00)]

def utf16 (cs : List Char) : List UInt16 := cs.flatMap utf16Char

@[simp] theorem utf8_nil : utf8 [] = [] := rfl

@[simp] theorem utf8_cons (c : Char) (cs : List Char) : utf8 (c :: cs) = String.utf8EncodeChar c ++ utf8 cs :=
  List.flatMap_cons

@[simp] theorem utf8_append (as bs : List Char) : utf8 (as ++ bs) = utf8 as ++ utf8 bs := List.flatMap_append

@[simp] theorem utf16_nil : utf16 [] = [] := rfl

@[simp] theorem utf16_cons (c : Char) (cs : List Char) : utf16 (c :: cs) = utf16Char c ++ utf16 cs :=
  List.flatMap_cons

@[simp] theorem utf16_append (as bs : List Char) : utf16 (as ++ bs) = utf16 as ++ utf16 bs := List.flatMap_append

section Bits

theorem trail_bits (n : ℕ) : (n ||| kByteMark) &&& kByteMask = 0x80 + n % 64 := by
  have hlow : n &&& 0x3F = n % 64 := Nat.and_two_pow_sub_one_eq_mod n 6
  have hlt : n % 64 < 2 ^ 7 := by omega
  have hkeep : (n &&& 0x80) ||| 0x80 = 0x80 := by
    apply Nat.eq_of_testBit_eq
    intro i
    rw [Nat.testBit_or, Nat.testBit_and]
    cases Nat.testBit 0x80 i <;> simp
  calc (n ||| kByteMark) &&& kByteMask
      = (n &&& (0x3F ||| 0x80)) ||| 0x80 := Nat.and_or_distrib_right n kByteMark kByteMask
    _ = (n % 64) ||| 0x80 := by rw [Nat.and_or_distrib_left, hlow, Nat.or_assoc, hkeep]
    _ = 0x80 + n % 64 := by rw [Nat.or_comm]; exact (Nat.shiftLeft_add_eq_or_of_lt hlt 1).symm

theorem lead_bits {n k mark : ℕ} (h : n < 2 ^ k) : n ||| (mark <<< k) = mark <<< k + n := by
  rw [Nat.or_comm, Nat.shiftLeft_add_eq_or_of_lt h]

theorem shiftAndMask_bits (codePoint : ℕ) (byte : UInt8) :
    utf8ShiftAndMask codePoint byte = codePoint * 64 + byte.toNat % 64 := by
  have hlow : 0x3F &&& byte.toNat = byte.toNat % 64 := by
    rw [Nat.and_comm]
    exact Nat.and_two_pow_sub_one_eq_mod byte.toNat 6
  rw [utf8ShiftAndMask, hlow, ← Nat.shiftLeft_add_eq_or_of_lt (Nat.mod_lt _ (by decide)), Nat.shiftLeft_eq]

theorem codepointLen_bits (ch : UInt8) : utf8CodepointLen ch =
    if ch.toNat < 0xC0 then 1 else if ch.toNat < 0xE0 then 2 else if ch.toNat < 0xF0 then 3 else 4 := by
  have hsmall : ∀ n < 32, ((0xe5000000 >>> (n &&& 0x1e)) &&& 3) + 1 =
      if n < 24 then 1 else if n < 28 then 2 else if n < 30 then 3 else 4 := by decide
  have hbyte := ch.toNat_lt
  have htop : ch.toNat >>> 3 = ch.toNat / 8 := Nat.shiftRight_eq_div_pow ch.toNat 3
  rw [utf8CodepointLen, htop, hsmall (ch.toNat / 8) (by omega)]
  split_ifs <;> omega

theorem top_bits (unit : UInt16) : unit.toNat &&& 0xFC00 = unit.toNat / 0x400 * 0x400 := by
  have hunit := unit.toNat_lt
  have hhigh : (unit.toNat &&& 0xFC00) >>> 10 = unit.toNat >>> 10 := by
    rw [Nat.shiftRight_and_distrib, show 0xFC00 >>> 10 = 2 ^ 6 - 1 from rfl, Nat.and_two_pow_sub_one_eq_mod,
      Nat.shiftRight_eq_div_pow]
    omega
  have hlow : (unit.toNat &&& 0xFC00) % 0x400 = 0 := by
    have hmod := @Nat.and_mod_two_pow unit.toNat 0xFC00 10
    simpa using hmod
  simp only [Nat.shiftRight_eq_div_pow] at hhigh
  omega

theorem isHighSurrogate_iff (unit : UInt16) : isHighSurrogate unit = true ↔ unit.toNat / 0x400 = 0x36 := by
  rw [isHighSurrogate, beq_iff_eq, top_bits]
  omega

theorem isLowSurrogate_iff (unit : UInt16) : isLowSurrogate unit = true ↔ unit.toNat / 0x400 = 0x37 := by
  rw [isLowSurrogate, beq_iff_eq, top_bits]
  omega

theorem surrogatePair_eq {high low : UInt16} (hlow : isLowSurrogate low = true) :
    surrogatePair high low = (high.toNat - 0xD800) * 0x400 + (low.toNat - 0xDC00) + 0x10000 := by
  have hlt : low.toNat - 0xDC00 < 2 ^ 10 := by
    rw [isLowSurrogate_iff] at hlow
    omega
  rw [surrogatePair, ← Nat.shiftLeft_add_eq_or_of_lt hlt, Nat.shiftLeft_eq]

end Bits

section Characters

variable (c : Char)

theorem char_lt : c.toNat < 0x110000 := by
  rcases c.valid with h | h
  · exact Nat.lt_trans h (by decide)
  · exact h.2

theorem char_not_surrogate : c.toNat < 0xD800 ∨ 0xDFFF < c.toNat := by
  rcases c.valid with h | h
  · exact .inl h
  · exact .inr h.1

theorem encode_cases :
    (c.toNat < 0x80 ∧ String.utf8EncodeChar c = [UInt8.ofNat c.toNat]) ∨
    (0x80 ≤ c.toNat ∧ c.toNat < 0x800 ∧
      String.utf8EncodeChar c = [UInt8.ofNat (0xC0 + c.toNat / 64), UInt8.ofNat (0x80 + c.toNat % 64)]) ∨
    (0x800 ≤ c.toNat ∧ c.toNat < 0x10000 ∧
      String.utf8EncodeChar c = [UInt8.ofNat (0xE0 + c.toNat / 4096), UInt8.ofNat (0x80 + c.toNat / 64 % 64),
        UInt8.ofNat (0x80 + c.toNat % 64)]) ∨
    (0x10000 ≤ c.toNat ∧
      String.utf8EncodeChar c = [UInt8.ofNat (0xF0 + c.toNat / 262144), UInt8.ofNat (0x80 + c.toNat / 4096 % 64),
        UInt8.ofNat (0x80 + c.toNat / 64 % 64), UInt8.ofNat (0x80 + c.toNat % 64)]) := by
  have hlt := char_lt c
  have hval : c.val.toNat = c.toNat := rfl
  unfold String.utf8EncodeChar
  simp only [hval]
  split_ifs with hone htwo hthree
  · exact .inl ⟨by omega, rfl⟩
  · refine .inr (.inl ⟨by omega, by omega, ?_⟩)
    rw [Nat.mod_eq_of_lt (by omega : c.toNat / 64 < 0x20), Nat.add_comm, Nat.add_comm (c.toNat % 64)]
  · refine .inr (.inr (.inl ⟨by omega, by omega, ?_⟩))
    rw [Nat.mod_eq_of_lt (by omega : c.toNat / 4096 < 0x10), Nat.add_comm, Nat.add_comm (c.toNat % 64),
      Nat.add_comm (c.toNat / 64 % 64)]
  · refine .inr (.inr (.inr ⟨by omega, ?_⟩))
    rw [Nat.mod_eq_of_lt (by omega : c.toNat / 262144 < 0x08), Nat.add_comm, Nat.add_comm (c.toNat % 64),
      Nat.add_comm (c.toNat / 64 % 64), Nat.add_comm (c.toNat / 4096 % 64)]

theorem utf8_length : utf32CodepointUtf8Length c.toNat = (String.utf8EncodeChar c).length := by
  have hlt := char_lt c
  have hvalid := char_not_surrogate c
  unfold utf32CodepointUtf8Length kUnicodeSurrogateStart kUnicodeSurrogateEnd kUnicodeMaxCodepoint
  rcases encode_cases c with ⟨h, heq⟩ | ⟨hlow, hhigh, heq⟩ | ⟨hlow, hhigh, heq⟩ | ⟨hlow, heq⟩ <;>
    rw [heq] <;> split_ifs <;> first | rfl | omega

theorem utf8_bytes :
    utf32CodepointToUtf8 c.toNat (utf32CodepointUtf8Length c.toNat) = String.utf8EncodeChar c := by
  have hlt := char_lt c
  rw [utf8_length]
  rcases encode_cases c with ⟨h, heq⟩ | ⟨hlow, hhigh, heq⟩ | ⟨hlow, hhigh, heq⟩ | ⟨hlow, heq⟩ <;> rw [heq]
  · simp only [utf32CodepointToUtf8, List.length_cons, List.length_nil, utf32CodepointToUtf8From, kFirstByteMark,
      Nat.or_zero]
  · have hlead := @lead_bits (c.toNat >>> 6) 5 6 (by rw [Nat.shiftRight_eq_div_pow]; omega)
    simp only [utf32CodepointToUtf8, List.length_cons, List.length_nil, utf32CodepointToUtf8From, trail_bits]
    rw [show kFirstByteMark (0 + 1 + 1) = 6 <<< 5 from rfl, hlead, Nat.shiftRight_eq_div_pow]
    rfl
  · have hlead := @lead_bits (c.toNat >>> 6 >>> 6) 4 14 (by simp only [Nat.shiftRight_eq_div_pow]; omega)
    simp only [utf32CodepointToUtf8, List.length_cons, List.length_nil, utf32CodepointToUtf8From, trail_bits]
    rw [show kFirstByteMark (0 + 1 + 1 + 1) = 14 <<< 4 from rfl, hlead]
    simp only [Nat.shiftRight_eq_div_pow, Nat.div_div_eq_div_mul]
    rfl
  · have hlead := @lead_bits (c.toNat >>> 6 >>> 6 >>> 6) 3 30 (by simp only [Nat.shiftRight_eq_div_pow]; omega)
    simp only [utf32CodepointToUtf8, List.length_cons, List.length_nil, utf32CodepointToUtf8From, trail_bits]
    rw [show kFirstByteMark (0 + 1 + 1 + 1 + 1) = 30 <<< 3 from rfl, hlead]
    simp only [Nat.shiftRight_eq_div_pow, Nat.div_div_eq_div_mul]
    rfl

theorem codepointLen_char {b : UInt8} {s : Bytes} (h : String.utf8EncodeChar c = b :: s) :
    utf8CodepointLen b = (b :: s).length := by
  have hlt := char_lt c
  rw [codepointLen_bits]
  rcases encode_cases c with ⟨hc, heq⟩ | ⟨hlow, hhigh, heq⟩ | ⟨hlow, hhigh, heq⟩ | ⟨hlow, heq⟩ <;>
    rw [heq, List.cons.injEq] at h <;> obtain ⟨rfl, rfl⟩ := h <;>
    simp only [UInt8.toNat_ofNat', List.length_cons, List.length_nil] <;> split_ifs <;> omega

theorem codepoint_char (rest : Bytes) :
    utf8ToUtf32Codepoint (String.utf8EncodeChar c ++ rest) (String.utf8EncodeChar c).length = .ok c.toNat := by
  have hlt := char_lt c
  rcases encode_cases c with ⟨hc, heq⟩ | ⟨hlow, hhigh, heq⟩ | ⟨hlow, hhigh, heq⟩ | ⟨hlow, heq⟩ <;> rw [heq]
  · simp only [List.cons_append, List.length_cons, List.length_nil, utf8ToUtf32Codepoint, UInt8.toNat_ofNat']
    rw [Nat.mod_eq_of_lt (by omega)]
  · have hcut := Nat.and_two_pow_sub_one_eq_mod (UInt8.ofNat (0xC0 + c.toNat / 64)).toNat 5
    simp only [List.cons_append, List.length_cons, List.length_nil, utf8ToUtf32Codepoint, shiftAndMask_bits]
    simp only [UInt8.toNat_ofNat'] at hcut ⊢
    rw [show 0x1f = 2 ^ 5 - 1 from rfl, hcut]
    congr 1
    omega
  · have hcut := Nat.and_two_pow_sub_one_eq_mod (UInt8.ofNat (0xE0 + c.toNat / 4096)).toNat 4
    simp only [List.cons_append, List.length_cons, List.length_nil, utf8ToUtf32Codepoint, shiftAndMask_bits]
    simp only [UInt8.toNat_ofNat'] at hcut ⊢
    rw [show 0x0f = 2 ^ 4 - 1 from rfl, hcut]
    congr 1
    omega
  · have hcut := Nat.and_two_pow_sub_one_eq_mod (UInt8.ofNat (0xF0 + c.toNat / 262144)).toNat 3
    simp only [List.cons_append, List.length_cons, List.length_nil, utf8ToUtf32Codepoint, shiftAndMask_bits]
    simp only [UInt8.toNat_ofNat'] at hcut ⊢
    rw [show 0x07 = 2 ^ 3 - 1 from rfl, hcut]
    congr 1
    omega

end Characters

section Writer

theorem codepoint_ok {ch : UInt8} {s : Bytes} (h : ¬ (ch :: s).length < utf8CodepointLen ch) :
    ∃ codepoint, utf8ToUtf32Codepoint (ch :: s) (utf8CodepointLen ch) = .ok codepoint := by
  rw [codepointLen_bits] at h ⊢
  split_ifs at h ⊢ with hone htwo hthree
  · exact ⟨_, rfl⟩
  · match s with
    | [] => simp at h
    | b :: s => exact ⟨_, rfl⟩
  · match s with
    | [] => simp at h
    | [b] => simp at h
    | b :: c :: s => exact ⟨_, rfl⟩
  · match s with
    | [] => simp at h
    | [b] => simp at h
    | [b, c] => simp at h
    | b :: c :: d :: s => exact ⟨_, rfl⟩

theorem utf8ToUtf16Length_measures (s : Bytes) : ∃ measured, utf8ToUtf16Length s = .ok measured ∧
    ∀ n, measured = some n → ∃ units, utf8ToUtf16From s n = .ok units ∧ units.length = n := by
  induction s using utf8ToUtf16Length.induct with
  | case1 =>
    refine ⟨some 0, by rw [utf8ToUtf16Length], fun n hn => ⟨[], by rw [utf8ToUtf16From], ?_⟩⟩
    exact Option.some.inj hn
  | case2 ch s hshort =>
    refine ⟨none, ?_, fun n hn => by cases hn⟩
    rw [utf8ToUtf16Length, if_pos hshort]
    rfl
  | case3 ch s hshort ih =>
    obtain ⟨codepoint, hcodepoint⟩ := codepoint_ok hshort
    obtain ⟨measured, hmeasured, hwritten⟩ := ih
    refine ⟨measured.map (fun measured => (if codepoint > 0xFFFF then 2 else 1) + measured), ?_, fun n hn => ?_⟩
    · rw [utf8ToUtf16Length, if_neg hshort, hcodepoint, hmeasured]
      rfl
    · obtain ⟨m, rfl, rfl⟩ := Option.map_eq_some_iff.mp hn
      obtain ⟨units, hunits, hlength⟩ := hwritten m rfl
      by_cases hpair : codepoint > 0xFFFF
      · rw [if_pos hpair, Nat.add_comm, utf8ToUtf16From, hcodepoint]
        simp only [bind, Except.bind, if_neg (Nat.not_le.mpr hpair), hunits]
        exact ⟨_, rfl, by simp [hlength]⟩
      · rw [if_neg hpair, Nat.add_comm, utf8ToUtf16From, hcodepoint]
        simp only [bind, Except.bind, if_pos (Nat.not_lt.mp hpair), hunits]
        exact ⟨_, rfl, by simp [hlength]⟩

theorem encode_ne_nil (c : Char) : String.utf8EncodeChar c ≠ [] := by
  rcases encode_cases c with ⟨-, heq⟩ | ⟨-, -, heq⟩ | ⟨-, -, heq⟩ | ⟨-, heq⟩ <;> rw [heq] <;> simp

theorem utf8ToUtf16_char (c : Char) (s : Bytes) : ∃ b rest, String.utf8EncodeChar c ++ s = b :: rest ∧
    ¬ (b :: rest).length < utf8CodepointLen b ∧
    utf8ToUtf32Codepoint (b :: rest) (utf8CodepointLen b) = .ok c.toNat ∧
      (b :: rest).drop (utf8CodepointLen b) = s := by
  obtain ⟨b, tail, htail⟩ := List.exists_cons_of_ne_nil (encode_ne_nil c)
  have hlen := codepointLen_char c htail
  refine ⟨b, tail ++ s, by rw [htail]; rfl, ?_, ?_, ?_⟩
  · rw [hlen, ← List.cons_append, List.length_append]
    omega
  · have hcodepoint := codepoint_char c s
    rw [hlen, ← List.cons_append, ← htail]
    exact hcodepoint
  · rw [hlen, ← List.cons_append]
    exact List.drop_left

theorem utf16Char_length (c : Char) : (utf16Char c).length = if c.toNat > 0xFFFF then 2 else 1 := by
  unfold utf16Char
  split_ifs <;> first | rfl | omega

theorem utf8ToUtf16Length_text (cs : List Char) : utf8ToUtf16Length (utf8 cs) = .ok (some (utf16 cs).length) := by
  induction cs with
  | nil => exact utf8ToUtf16Length.eq_1
  | cons c cs ih =>
    obtain ⟨b, rest, hsplit, hlong, hcodepoint, hdrop⟩ := utf8ToUtf16_char c (utf8 cs)
    rw [utf8_cons, hsplit, utf8ToUtf16Length, if_neg hlong, hcodepoint, hdrop]
    simp only [bind, Except.bind, ih]
    rw [utf16_cons, List.length_append, utf16Char_length]
    rfl

theorem utf8ToUtf16From_text (cs : List Char) :
    utf8ToUtf16From (utf8 cs) (utf16 cs).length = .ok (utf16 cs) := by
  induction cs with
  | nil => rw [utf8_nil, utf8ToUtf16From, utf16_nil]
  | cons c cs ih =>
    obtain ⟨b, rest, hsplit, -, hcodepoint, hdrop⟩ := utf8ToUtf16_char c (utf8 cs)
    rw [utf8_cons, hsplit, utf16_cons, List.length_append, utf16Char_length, Nat.add_comm]
    by_cases hpair : c.toNat > 0xFFFF
    · rw [if_pos hpair, utf8ToUtf16From, hcodepoint, hdrop]
      simp only [bind, Except.bind, if_neg (Nat.not_le.mpr hpair), ih]
      have hlow := Nat.and_two_pow_sub_one_eq_mod (c.toNat - 0x10000) 10
      rw [utf16Char, if_neg (by omega), Nat.shiftRight_eq_div_pow, show 0x3FF = 2 ^ 10 - 1 from rfl, hlow]
      rfl
    · rw [if_neg hpair, utf8ToUtf16From, hcodepoint, hdrop]
      simp only [bind, Except.bind, if_pos (Nat.not_lt.mp hpair), ih]
      rw [utf16Char, if_pos (by omega)]
      rfl

end Writer

section Reader

def scalar (utf32 : ℕ) : List Char := if utf32.isValidChar then [Char.ofNat utf32] else []

def utf16Chars : List UInt16 → List Char
  | [] => []
  | [unit] => scalar unit.toNat
  | unit :: next :: src =>
    if isHighSurrogate unit && isLowSurrogate next then scalar (surrogatePair unit next) ++ utf16Chars src
    else scalar unit.toNat ++ utf16Chars (next :: src)

theorem scalar_char (c : Char) : scalar c.toNat = [c] := by
  have hvalid : c.toNat.isValidChar := c.valid
  rw [scalar, if_pos hvalid, Char.ofNat_toNat]

theorem scalar_bytes {utf32 : ℕ} (h : utf32 < 0x110000) :
    utf32CodepointUtf8Length utf32 = (utf8 (scalar utf32)).length ∧
      utf32CodepointToUtf8 utf32 (utf32CodepointUtf8Length utf32) = utf8 (scalar utf32) := by
  by_cases hvalid : utf32.isValidChar
  · obtain ⟨c, rfl⟩ : ∃ c : Char, c.toNat = utf32 := ⟨Char.ofNat utf32, by rw [Char.toNat_ofNat, if_pos hvalid]⟩
    rw [scalar_char, utf8_cons, utf8_nil, List.append_nil]
    exact ⟨utf8_length c, utf8_bytes c⟩
  · have hlength : utf32CodepointUtf8Length utf32 = 0 := by
      simp only [Nat.isValidChar] at hvalid
      unfold utf32CodepointUtf8Length kUnicodeSurrogateStart kUnicodeSurrogateEnd kUnicodeMaxCodepoint
      split_ifs <;> omega
    rw [scalar, if_neg hvalid, hlength]
    exact ⟨rfl, rfl⟩

theorem unit_lt (unit : UInt16) : unit.toNat < 0x110000 := Nat.lt_trans unit.toNat_lt (by decide)

theorem surrogatePair_range {high low : UInt16} (hhigh : isHighSurrogate high = true)
    (hlow : isLowSurrogate low = true) :
    0x10000 ≤ surrogatePair high low ∧ surrogatePair high low < 0x110000 := by
  rw [surrogatePair_eq hlow]
  rw [isHighSurrogate_iff] at hhigh
  rw [isLowSurrogate_iff] at hlow
  omega

theorem storeUtf8_reads {utf32 room : ℕ} {cs : List Char} {rest : ℕ → Except Fault Bytes} (hlt : utf32 < 0x110000)
    (hroom : (utf8 (scalar utf32 ++ cs)).length < room)
    (hrest : ∀ {room : ℕ}, (utf8 cs).length < room → rest room = .ok (utf8 cs)) :
    storeUtf8 utf32 room rest = .ok (utf8 (scalar utf32 ++ cs)) := by
  obtain ⟨hlength, hbytes⟩ := scalar_bytes hlt
  rw [utf8_append, List.length_append] at hroom
  unfold storeUtf8
  simp only [hbytes]
  rw [hlength, if_neg (by omega), hrest (by omega), utf8_append]
  rfl

theorem utf16ToUtf8_reads (units : List UInt16) {room : ℕ} (h : (utf8 (utf16Chars units)).length < room) :
    utf16ToUtf8 units room = .ok (utf8 (utf16Chars units)) := by
  induction units using utf16Chars.induct generalizing room with
  | case1 =>
    rw [utf16Chars, utf8_nil, List.length_nil] at h
    rw [utf16ToUtf8, if_neg (by omega)]
    rfl
  | case2 unit =>
    rw [utf16Chars, ← List.append_nil (scalar unit.toNat)] at h ⊢
    rw [utf16ToUtf8]
    refine storeUtf8_reads (unit_lt unit) h fun hroom => ?_
    rw [utf16ToUtf8, if_neg (by rw [utf8_nil, List.length_nil] at hroom; omega)]
    rfl
  | case3 unit next src hpair ih =>
    rw [utf16Chars, if_pos hpair] at h ⊢
    rw [utf16ToUtf8, if_pos hpair]
    rw [Bool.and_eq_true] at hpair
    exact storeUtf8_reads (surrogatePair_range hpair.1 hpair.2).2 h ih
  | case4 unit next src hpair ih =>
    rw [utf16Chars, if_neg hpair] at h ⊢
    rw [utf16ToUtf8, if_neg hpair]
    exact storeUtf8_reads (unit_lt unit) h ih

theorem addLength_reads {charLen utf32 ret : ℕ} {cs : List Char} {rest : ℕ → Option ℕ}
    (hlen : charLen = (utf8 (scalar utf32)).length) (hret : ret + (utf8 (scalar utf32 ++ cs)).length ≤ SSIZE_MAX)
    (hrest : ∀ {ret : ℕ}, ret + (utf8 cs).length ≤ SSIZE_MAX → rest ret = some (ret + (utf8 cs).length)) :
    addLength charLen ret rest = some (ret + (utf8 (scalar utf32 ++ cs)).length) := by
  rw [utf8_append, List.length_append] at hret ⊢
  rw [addLength, if_neg (by omega), hrest (by omega), hlen, Nat.add_assoc]

theorem utf16ToUtf8LengthFrom_reads (units : List UInt16) {ret : ℕ}
    (h : ret + (utf8 (utf16Chars units)).length ≤ SSIZE_MAX) :
    utf16ToUtf8LengthFrom units ret = some (ret + (utf8 (utf16Chars units)).length) := by
  induction units using utf16Chars.induct generalizing ret with
  | case1 => rw [utf16ToUtf8LengthFrom, utf16Chars]; rfl
  | case2 unit =>
    rw [utf16Chars, ← List.append_nil (scalar unit.toNat)] at h ⊢
    rw [utf16ToUtf8LengthFrom]
    refine addLength_reads (scalar_bytes (unit_lt unit)).1 h fun hret => ?_
    rw [utf16ToUtf8LengthFrom]
    rfl
  | case3 unit next src hpair ih =>
    rw [utf16Chars, if_pos hpair] at h ⊢
    rw [utf16ToUtf8LengthFrom, if_pos hpair]
    rw [Bool.and_eq_true] at hpair
    have hrange := surrogatePair_range hpair.1 hpair.2
    refine addLength_reads ?_ h ih
    rw [← (scalar_bytes hrange.2).1]
    unfold utf32CodepointUtf8Length kUnicodeMaxCodepoint
    split_ifs <;> omega
  | case4 unit next src hpair ih =>
    rw [utf16Chars, if_neg hpair] at h ⊢
    rw [utf16ToUtf8LengthFrom, if_neg hpair]
    exact addLength_reads (scalar_bytes (unit_lt unit)).1 h ih

theorem utf16Chars_length (units : List UInt16) : (utf8 (utf16Chars units)).length ≤ 3 * units.length := by
  induction units using utf16Chars.induct with
  | case1 => rfl
  | case2 unit =>
    rw [utf16Chars, ← (scalar_bytes (unit_lt unit)).1]
    have hunit := unit.toNat_lt
    unfold utf32CodepointUtf8Length
    simp only [List.length_cons, List.length_nil]
    split_ifs <;> omega
  | case3 unit next src hpair ih =>
    rw [utf16Chars, if_pos hpair, utf8_append, List.length_append]
    rw [Bool.and_eq_true] at hpair
    rw [← (scalar_bytes (surrogatePair_range hpair.1 hpair.2).2).1]
    unfold utf32CodepointUtf8Length
    simp only [List.length_cons] at ih ⊢
    split_ifs <;> omega
  | case4 unit next src hpair ih =>
    rw [utf16Chars, if_neg hpair, utf8_append, List.length_append, ← (scalar_bytes (unit_lt unit)).1]
    have hunit := unit.toNat_lt
    unfold utf32CodepointUtf8Length
    simp only [List.length_cons] at ih ⊢
    split_ifs <;> omega

theorem scalar_units (utf32 : ℕ) : (utf16 (scalar utf32)).length ≤ if utf32 > 0xFFFF then 2 else 1 := by
  by_cases hvalid : utf32.isValidChar
  · rw [scalar, if_pos hvalid, utf16_cons, utf16_nil, List.append_nil, utf16Char_length, Char.toNat_ofNat,
      if_pos hvalid]
  · rw [scalar, if_neg hvalid]
    exact Nat.zero_le _

theorem utf16_utf16Chars_length (units : List UInt16) : (utf16 (utf16Chars units)).length ≤ units.length := by
  have hone (unit : UInt16) : (utf16 (scalar unit.toNat)).length ≤ 1 := by
    have hunit := unit.toNat_lt
    have hscalar := scalar_units unit.toNat
    rw [if_neg (by omega)] at hscalar
    exact hscalar
  induction units using utf16Chars.induct with
  | case1 => rfl
  | case2 unit => exact hone unit
  | case3 unit next src hpair ih =>
    have hscalar := scalar_units (surrogatePair unit next)
    rw [utf16Chars, if_pos hpair, utf16_append, List.length_append]
    simp only [List.length_cons]
    split_ifs at hscalar <;> omega
  | case4 unit next src hpair ih =>
    have hscalar := hone unit
    rw [utf16Chars, if_neg hpair, utf16_append, List.length_append]
    simp only [List.length_cons] at ih ⊢
    omega

theorem utf16Chars_char (c : Char) (units : List UInt16) :
    utf16Chars (utf16Char c ++ units) = c :: utf16Chars units := by
  have hlt := char_lt c
  have hvalid := char_not_surrogate c
  unfold utf16Char
  split_ifs with hsmall
  · have hunit : (UInt16.ofNat c.toNat).toNat = c.toNat := by
      rw [UInt16.toNat_ofNat']
      omega
    have hhigh : isHighSurrogate (UInt16.ofNat c.toNat) = false := by
      rw [Bool.eq_false_iff, ne_eq, isHighSurrogate_iff, hunit]
      omega
    cases units with
    | nil =>
      simp only [List.append_nil, utf16Chars, hunit, scalar_char]
    | cons next src =>
      rw [List.cons_append, List.nil_append, utf16Chars, hhigh, hunit, scalar_char]
      rfl
  · have hhigh : isHighSurrogate (UInt16.ofNat ((c.toNat - 0x10000) / 0x400 + 0xD800)) = true := by
      rw [isHighSurrogate_iff, UInt16.toNat_ofNat']
      omega
    have hlow : isLowSurrogate (UInt16.ofNat ((c.toNat - 0x10000) % 0x400 + 0xDC00)) = true := by
      rw [isLowSurrogate_iff, UInt16.toNat_ofNat']
      omega
    have hpair : surrogatePair (UInt16.ofNat ((c.toNat - 0x10000) / 0x400 + 0xD800))
        (UInt16.ofNat ((c.toNat - 0x10000) % 0x400 + 0xDC00)) = c.toNat := by
      rw [surrogatePair_eq hlow, UInt16.toNat_ofNat', UInt16.toNat_ofNat']
      omega
    rw [List.cons_append, List.cons_append, List.nil_append, utf16Chars, hhigh, hlow, hpair, scalar_char]
    rfl

theorem utf16Chars_utf16 (cs : List Char) : utf16Chars (utf16 cs) = cs := by
  induction cs with
  | nil => rfl
  | cons c cs ih => rw [utf16_cons, utf16Chars_char, ih]

end Reader

end BinderDownload.Wire
