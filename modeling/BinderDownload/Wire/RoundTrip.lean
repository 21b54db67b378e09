import BinderDownload.Wire.Buffer
import BinderDownload.Wire.Format

namespace BinderDownload.Wire

open Text

namespace Parcel

variable {p q : Parcel} {as bs : Bytes} {α β : Type}

structure Plain (p : Parcel) : Prop where
  sound : p.Sound
  full : 0 < p.mDataSize
  objects : p.mObjects = []

def ahead (p : Parcel) : Bytes := p.content.drop p.mDataPos

structure Passed (p : Parcel) (step : ℕ) (q : Parcel) : Prop where
  plain : q.Plain
  content : q.content = p.content
  pos : q.mDataPos = p.mDataPos + step

/-- Where `bs` come next, the read takes them, and makes `a` of them. -/
def Reads (r : Parcel → Reading α) (bs : Bytes) (a : α) : Prop :=
  ∀ p : Parcel, p.Plain → bs <+: p.ahead → ∃ q, r p = .ok (.ok a, q) ∧ Passed p bs.length q

theorem Plain.ahead_length (h : p.Plain) : p.ahead.length = p.mDataSize - p.mDataPos := by
  rw [ahead, List.length_drop, h.sound.content_length]

theorem Plain.within (h : p.Plain) (hbs : bs <+: p.ahead) : p.mDataPos + bs.length ≤ p.mDataSize := by
  have hle := hbs.length_le
  have hpos := h.sound.pos
  rw [h.ahead_length] at hle
  omega

theorem Plain.le (h : p.Plain) (hbs : bs <+: p.ahead) : bs.length ≤ INT32_MAX := by
  have hwithin := h.within hbs
  have hsize := h.sound.size
  have hcapacity := h.sound.capacity
  omega

theorem Plain.dataAvail_eq (h : p.Plain) : p.dataAvail = .ok (p.mDataSize - p.mDataPos) := by
  have hpos := h.sound.pos
  have hsize := h.sound.size
  have hcapacity := h.sound.capacity
  have havail : p.dataSize - p.mDataPos = p.mDataSize - p.mDataPos := by
    unfold dataSize
    split_ifs <;> omega
  simp only [dataAvail, havail]
  exact if_neg (by omega)

theorem Plain.forward (h : p.Plain) {step : ℕ} (hwithin : p.mDataPos + step ≤ p.mDataSize) :
    Passed p step { p with mDataPos := p.mDataPos + step } :=
  ⟨⟨⟨hwithin, h.sound.size, h.sound.capacity⟩, h.full, h.objects⟩, rfl, rfl⟩

theorem Passed.trans {r : Parcel} {first second : ℕ} (h : Passed p first q) (hrest : Passed q second r) :
    Passed p (first + second) r :=
  ⟨hrest.plain, hrest.content.trans h.content, by rw [hrest.pos, h.pos, Nat.add_assoc]⟩

theorem Passed.ahead (h : Passed p as.length q) (hbs : as ++ bs <+: p.ahead) : bs <+: q.ahead := by
  obtain ⟨rest, hrest⟩ := hbs
  refine ⟨rest, ?_⟩
  rw [Parcel.ahead, h.content, h.pos, ← List.drop_drop, ← Parcel.ahead, ← hrest, List.append_assoc, List.drop_left]

theorem Reads.next {r : Parcel → Reading α} {k : α → Parcel → Reading β} {a : α} {b : β} (h : Reads r as a)
    (hnext : Reads (k a) bs b) : Reads (fun p => (r p).next k) (as ++ bs) b := by
  intro p hplain hbs
  obtain ⟨q, hr, hq⟩ := h p hplain ((List.prefix_append as bs).trans hbs)
  obtain ⟨s, hk, hs⟩ := hnext q hq.plain (hq.ahead hbs)
  refine ⟨s, ?_, ?_⟩
  · simp only [hr, Reading.next, hk]
  · rw [List.length_append]
    exact hq.trans hs

theorem nothing_reads (a : α) : Reads (fun p => .ok (.ok a, p)) [] a :=
  fun p hplain _ => ⟨p, rfl, hplain, rfl, rfl⟩

theorem Reads.map {r : Parcel → Reading α} {a : α} {b : β} {f : α → β} (h : Reads r bs a) (hf : f a = b) :
    Reads (fun p => (r p).map f) bs b := by
  intro p hplain hbs
  obtain ⟨q, hr, hq⟩ := h p hplain hbs
  exact ⟨q, by simp only [hr, Reading.map, Reading.next, hf], hq⟩

theorem take_prefix (h : p.Plain) {len step : ℕ} (hlen : len ≤ step) (hstep : step = bs.length) (hbs : bs <+: p.ahead) :
    p.take len step = .ok (.ok (bs.take len), { p with mDataPos := p.mDataPos + step }) := by
  have hwithin := h.within hbs
  obtain ⟨rest, hrest⟩ := hbs
  rw [take_plain h.objects h.sound.size hlen (by omega), ← ahead, ← hrest, List.take_append_of_le_length (by omega)]

theorem readAligned_reads [Packed α] (val : α) : Reads (fun p => p.readAligned α) (Packed.pack val) val := by
  intro p hplain hbs
  have hlength : Packed.size α = (Packed.pack val).length := (Packed.pack_length val).symm
  refine ⟨_, ?_, hplain.forward (hplain.within hbs)⟩
  simp only [readAligned, take_prefix hplain (Nat.le_refl _) hlength hbs, Except.map]
  rw [hlength, List.take_length, Packed.unpack_pack]

theorem readInplace_reads (h : p.Plain) {data : Bytes} (hbs : padded data <+: p.ahead) :
    ∃ q, p.readInplace data.length = .ok (some data, q) ∧ Passed p (padded data).length q := by
  have hpad := (padSize_range data.length).1
  have hle := h.le hbs
  have hforward := h.forward (h.within hbs)
  rw [padded_length] at hle hforward
  have hblock : p.mData ≠ none := by
    intro hnone
    have hsize := h.sound.size
    have hfull := h.full
    rw [mDataCapacity, hnone, Option.getD_none, List.length_nil] at hsize
    omega
  obtain ⟨block, hsome⟩ := Option.ne_none_iff_exists'.mp hblock
  rw [← padded_length] at hforward
  refine ⟨_, ?_, hforward⟩
  rw [readInplace, if_neg (by omega), ← padded_length, take_prefix h (by rw [padded_length]; exact hpad) rfl hbs]
  simp only [Except.map, Except.toOption, hsome, Option.bind_some]
  rw [show (padded data).take data.length = data from List.take_left]

section Words

theorem bool_word (val : Bool) : (boolWord val != 0) = val := by cases val <;> rfl

theorem char_word (val : UInt16) : UInt16.ofInt (charWord val).toInt = val := by
  have hlt := val.toNat_lt
  rw [charWord, Int32.toInt_ofNat_of_lt (by omega)]
  have hmod : ((val.toNat : ℤ) % 2 ^ 16).toNat = val.toNat := by omega
  rw [UInt16.ofInt, hmod, UInt16.ofNat_toNat]

end Words

section Sizes

theorem toInt_sizeWord {size : ℕ} (h : size ≤ INT32_MAX) : (Int32.ofNat size).toInt = size :=
  Int32.toInt_ofNat_of_lt (Nat.lt_of_le_of_lt h (by decide))

theorem readArray_reads [Packed α] (c : List α) :
    Reads (fun p => readArray α c.length p) (padded (Packed.packAll c)) c := by
  intro p hplain hbs
  obtain ⟨q, hread, hq⟩ := readInplace_reads hplain hbs
  rw [Packed.packAll_length] at hread
  exact ⟨q, by simp only [readArray, hread, Except.map, Packed.unpackAll_packAll], hq⟩

theorem readWords_reads {word : α → Int32} {f : Int32 → α} (hf : ∀ a, f (word a) = a) (c : List α) :
    Reads (fun p => (readArray Int32 c.length p).map (fun words => words.map f))
      (padded (Packed.packAll (c.map word))) c := by
  have harray := readArray_reads (c.map word)
  rw [List.length_map] at harray
  refine harray.map ?_
  rw [List.map_map]
  exact List.map_id'' hf c

theorem readEach_reads {read : Parcel → Reading α} {wire : α → Bytes} {c : List α}
    (h : ∀ a ∈ c, Reads read (wire a) a) : Reads (readEach read c.length) (c.flatMap wire) c := by
  induction c with
  | nil => exact nothing_reads []
  | cons a c ih =>
    rw [List.flatMap_cons]
    exact (h a List.mem_cons_self).next ((ih (fun b hb => h b (List.mem_cons_of_mem a hb))).map rfl)

theorem readVector_reads {elements : ℕ → Parcel → Reading (List α)} {c : List α} (hlength : c.length ≤ bs.length)
    (h : Reads (elements c.length) bs c) :
    Reads (fun p => p.readVector elements) (sizeWord c.length ++ bs) c := by
  intro p hplain hbs
  have hle := hplain.le hbs
  rw [List.length_append] at hle
  refine ((readAligned_reads (Int32.ofNat c.length)).next ?_) p hplain hbs
  intro q hq hahead
  have hwithin := hq.within hahead
  have hcount := toInt_sizeWord (show c.length ≤ INT32_MAX by omega)
  have hfits : ¬ c.length > q.mDataSize - q.mDataPos := by omega
  obtain ⟨r, hread, hr⟩ := h q hq hahead
  refine ⟨r, ?_, hr⟩
  simp only [hcount, hq.dataAvail_eq, Int.toNat_natCast, if_neg hfits,
    if_neg (Int.not_lt.mpr (Int.natCast_nonneg c.length)), hread]

theorem unpackAll_last (units : List UInt16) :
    (Packed.unpackAll UInt16 (units.length + 1) (Packed.packAll (units ++ [0]))) = units ++ [0] := by
  have hall := Packed.unpackAll_packAll (units ++ [(0 : UInt16)])
  rw [List.length_append] at hall
  exact hall

theorem readString16Inplace_reads {units : List UInt16} (h : p.Plain) (hbs : wireUnits units <+: p.ahead) :
    ∃ q, p.readString16Inplace = .ok (some units, q) ∧ Passed p (wireUnits units).length q := by
  have hle := h.le hbs
  have hpad := (padSize_range ((units.length + 1) * 2)).1
  have hlength : (Packed.packAll (units ++ [0])).length = (units.length + 1) * 2 := by
    rw [Packed.packAll_length, List.length_append]
    rfl
  rw [wireUnits_length] at hle
  obtain ⟨q, hsize, hq⟩ := readAligned_reads (Int32.ofNat units.length) p h ((List.prefix_append _ _).trans hbs)
  have hahead := hq.ahead hbs
  obtain ⟨r, hread, hr⟩ := readInplace_reads hq.plain hahead
  rw [hlength] at hread
  have hcount := toInt_sizeWord (show units.length ≤ INT32_MAX by omega)
  have hrange : (0 : ℤ) ≤ units.length ∧ (units.length : ℤ) < INT32_MAX := by omega
  refine ⟨r, ?_, ?_⟩
  · simp only at hsize
    simp only [readString16Inplace, readAlignedOrZero, hsize, Except.map, bind, Except.bind, hcount, if_pos hrange,
      Int.toNat_natCast, hread, unpackAll_last, List.getLast?_concat, if_true, List.take_left]
    rfl
  · rw [wireUnits, List.length_append]
    exact hq.trans hr

theorem readString16_reads (units : List UInt16) : Reads readString16 (wireUnits units) units := by
  intro p hplain hbs
  obtain ⟨q, hread, hq⟩ := readString16Inplace_reads hplain hbs
  exact ⟨q, by rw [readString16, hread]; rfl, hq⟩

theorem readUtf8FromUtf16_some {units : List UInt16} (h : p.readString16Inplace = .ok (some units, q))
    (hle : units.length ≤ INT32_MAX) : p.readUtf8FromUtf16 = .ok (.ok (utf8 (utf16Chars units)), q) := by
  rw [readUtf8FromUtf16, h]
  by_cases hany : units = []
  · rw [hany]
    rfl
  · obtain ⟨hmeasure, hread⟩ := utf16ToUtf8_measured hany hle
    simp only [hmeasure, hread, Except.map, List.isEmpty_iff, if_neg hany]

theorem readUtf8FromUtf16_reads (units : List UInt16) :
    Reads readUtf8FromUtf16 (wireUnits units) (utf8 (utf16Chars units)) := by
  intro p hplain hbs
  have hle := hplain.le hbs
  have hpad := (padSize_range ((units.length + 1) * 2)).1
  rw [wireUnits_length] at hle
  obtain ⟨q, hread, hq⟩ := readString16Inplace_reads hplain hbs
  exact ⟨q, readUtf8FromUtf16_some hread (by omega), hq⟩

theorem readNullable_none (read : Parcel → Reading α) :
    Reads (fun p => p.readNullable read) (Packed.pack (-1 : Int32)) none := by
  intro p hplain hbs
  obtain ⟨q, hpeek, hq⟩ := readAligned_reads (-1 : Int32) p hplain hbs
  refine ⟨q, ?_, hq⟩
  simp only at hpeek
  simp only [readNullable, readInt32, hpeek, Reading.next, if_true]

theorem readNullable_some {read : Parcel → Reading α} {a : α} {size : ℕ} (hle : size ≤ bs.length)
    (h : Reads read (sizeWord size ++ bs) a) :
    Reads (fun p => p.readNullable read) (sizeWord size ++ bs) (some a) := by
  intro p hplain hbs
  have hbytes := hplain.le hbs
  have hpos := hplain.sound.pos
  have hsize := hplain.sound.size
  have hcapacity := hplain.sound.capacity
  rw [List.length_append] at hbytes
  obtain ⟨q, hpeek, hq⟩ := readAligned_reads (Int32.ofNat size) p hplain ((List.prefix_append _ _).trans hbs)
  have hcount := toInt_sizeWord (show size ≤ INT32_MAX by omega)
  have hvalue : Int32.ofNat size ≠ -1 := by
    intro heq
    rw [heq] at hcount
    have hminus : (-1 : Int32).toInt = -1 := rfl
    omega
  let back : Parcel := { q with mDataPos := p.mDataPos, mNextObjectHint := 0, mObjectsSorted := false }
  have hback : back.Plain := by
    refine ⟨⟨?_, hq.plain.sound.size, hq.plain.sound.capacity⟩, hq.plain.full, hq.plain.objects⟩
    have hwithin := hq.plain.sound.pos
    rw [hq.pos] at hwithin
    exact (Nat.le_add_right _ _).trans hwithin
  have hcontent : back.content = p.content := hq.content
  have hahead : back.ahead = p.ahead := by rw [ahead, hcontent]; rfl
  obtain ⟨r, hread, hr⟩ := h back hback (by rw [hahead]; exact hbs)
  refine ⟨r, ?_, hr.plain, hr.content.trans hcontent, hr.pos⟩
  have hseek : q.setDataPosition p.mDataPos = .ok back := if_neg (by omega)
  simp only at hpeek
  simp only [readNullable, readInt32, hpeek, Reading.next, if_neg hvalue, hseek, Except.bind, hread, Reading.map]

end Sizes

section Values

theorem readElements_reads (s : Shape) {read : Parcel → Reading s.Value} {wire : s.Value → Bytes} {c : List s.Value}
    (h : ∀ a ∈ c, Reads read (wire a) a) :
    Reads (readElements s read c.length) (wireElements s wire c) c := by
  have heach := readEach_reads h
  cases s with
  | packed k => exact readArray_reads (α := k.Value) c
  | bool => exact readWords_reads bool_word c
  | char16 => exact readWords_reads char_word c
  | string16 => exact heach
  | utf8 => exact heach
  | vector s => exact heach
  | nullableString16 => exact heach
  | nullableUtf8 => exact heach
  | nullableVector s => exact heach

theorem readKind_reads (k : Kind) (val : k.Value) : Reads (readKind k) (wireKind k val) val := by
  cases k with
  | int8 => exact (readAligned_reads (Int8.toInt32 val)).map (Int8.toInt8_toInt32 val)
  | uint8 =>
    have hword := Int8.toInt8_toInt32 (UInt8.toInt8 val)
    exact ((readAligned_reads (Int8.toInt32 (UInt8.toInt8 val))).map hword).map (UInt8.toUInt8_toInt8 val)
  | int32 => exact readAligned_reads (α := Int32) val
  | uint32 => exact readAligned_reads (α := UInt32) val
  | int64 => exact readAligned_reads (α := Int64) val
  | uint64 => exact readAligned_reads (α := UInt64) val

theorem readText_reads {str : Bytes} (h : ValidUtf8 str) : Reads readUtf8FromUtf16 (wireUnits (utf16Of str)) str := by
  obtain ⟨cs, rfl⟩ := h
  have hread := readUtf8FromUtf16_reads (utf16Of (utf8 cs))
  rw [utf16Of_text, utf16Chars_utf16] at hread
  rw [utf16Of_text]
  exact hread

theorem wireUnits_bound (units : List UInt16) : units.length ≤ (padded (Packed.packAll (units ++ [0]))).length := by
  have hbound := padded_packAll_length (units ++ [0])
  rw [List.length_append] at hbound
  exact (Nat.le_add_right _ _).trans hbound

theorem readData_reads (s : Shape) (val : s.Value) (hvalid : s.Valid val) : Reads (readData s) (wire s val) val := by
  induction s with
  | packed k => exact readKind_reads k val
  | bool => exact (readAligned_reads (boolWord val)).map (bool_word val)
  | char16 => exact (readAligned_reads (charWord val)).map (char_word val)
  | string16 => exact readString16_reads val
  | utf8 => exact readText_reads hvalid
  | vector s ih =>
    exact readVector_reads (wireElements_length s val) (readElements_reads s (fun a ha => ih a (hvalid a ha)))
  | nullableString16 =>
    match val with
    | none => exact readNullable_none _
    | some str => exact readNullable_some (wireUnits_bound str) (readString16_reads str)
  | nullableUtf8 =>
    match val with
    | none => exact readNullable_none _
    | some str => exact readNullable_some (wireUnits_bound (utf16Of str)) (readText_reads (hvalid str rfl))
  | nullableVector s ih =>
    match val with
    | none => exact readNullable_none _
    | some c =>
      exact readNullable_some (wireElements_length s c) (readVector_reads (wireElements_length s c)
        (readElements_reads s (fun a ha => ih a (hvalid c rfl a ha))))

end Values

section Messages

abbrev Datum := (s : Shape) × s.Value

def writeMessage (heap : Heap) : List Datum → Parcel → Writing :=
  writeEach (fun value => writeData heap value.1 value.2)

def readMessage : List Shape → Parcel → Reading (List Datum)
  | [], p => .ok (.ok [], p)
  | s :: shapes, p => (readData s p).next (fun a p => (readMessage shapes p).map (fun values => ⟨s, a⟩ :: values))

def wireMessage (values : List Datum) : Bytes := values.flatMap (fun value => wire value.1 value.2)

theorem writeMessage_appends {heap : Heap} (hgives : Gives heap) {values : List Datum}
    (hvalid : ∀ value ∈ values, value.1.Valid value.2) :
    Appends 0 (writeMessage heap values) (wireMessage values) :=
  writeEach_appends (fun value hvalue => writeData_appends hgives value.1 value.2 (hvalid value hvalue))

theorem readMessage_reads {values : List Datum} (hvalid : ∀ value ∈ values, value.1.Valid value.2) :
    Reads (readMessage (values.map Sigma.fst)) (wireMessage values) values := by
  induction values with
  | nil => exact nothing_reads []
  | cons value values ih =>
    have hrest := ih (fun other hother => hvalid other (List.mem_cons_of_mem value hother))
    exact (readData_reads value.1 value.2 (hvalid value List.mem_cons_self)).next (hrest.map rfl)

theorem ample_gives : Gives .ample := fun _ _ => Option.some_ne_none _

structure Rewound (p q r : Parcel) : Prop where
  sound : r.Sound
  objects : r.mObjects = []
  content : r.content = q.content
  pos : r.mDataPos = p.mDataPos

theorem Appended.ends (h : p.AtEnd) (hq : Appended p bs q) : q.mDataPos = p.mDataPos + bs.length := by
  rw [hq.atEnd.pos, hq.size h.sound, h.pos]

theorem Rewound.plain {r : Parcel} (hr : Rewound p q r) (h : p.AtEnd) (hq : Appended p bs q) (hany : 0 < bs.length) :
    r.Plain ∧ bs <+: r.ahead := by
  have hahead : r.ahead = bs := by
    rw [ahead, hr.content, hq.content, hr.pos, h.pos]
    exact List.drop_left' h.sound.content_length
  have hfull : 0 < r.mDataSize := by
    rw [← hr.sound.content_length, hr.content, hq.content, List.length_append]
    omega
  exact ⟨⟨hr.sound, hfull, hr.objects⟩, hahead.symm ▸ List.prefix_rfl⟩

theorem Appended.read_back {r : Parcel} {read : Parcel → Reading α} {a : α} (h : p.AtEnd) (hq : Appended p bs q)
    (hany : 0 < bs.length) (hread : Reads read bs a) (hr : Rewound p q r) :
    ∃ t, read r = .ok (.ok a, t) ∧ t.mDataPos = q.mDataPos := by
  obtain ⟨hplain, hahead⟩ := hr.plain h hq hany
  obtain ⟨t, hback, ht⟩ := hread r hplain hahead
  exact ⟨t, hback, by rw [ht.pos, hr.pos, hq.ends h]⟩

theorem Appended.rewind (h : p.AtEnd) (hq : Appended p bs q) :
    ∃ r, q.setDataPosition p.mDataPos = .ok r ∧ Rewound p q r := by
  have hpos := hq.atEnd.sound.pos
  have hsize := hq.atEnd.sound.size
  have hcapacity := hq.atEnd.sound.capacity
  have hends := hq.ends h
  refine ⟨_, if_neg (by omega), ⟨?_, hsize, hcapacity⟩, hq.atEnd.objects, rfl, rfl⟩
  exact (Nat.le_add_right _ _).trans (hends ▸ hpos)

theorem message_comes_back {heap : Heap} (hgives : Gives heap) (h : p.AtEnd) (values : List Datum)
    (hvalid : ∀ value ∈ values, value.1.Valid value.2) (hfits : p.Fits (wireMessage values)) :
    ∃ q, writeMessage heap values p = .ok (.noError, q) ∧ Appended p (wireMessage values) q ∧
      ∀ r : Parcel, Rewound p q r →
        ∃ t, readMessage (values.map Sigma.fst) r = .ok (.ok values, t) ∧ t.mDataPos = q.mDataPos := by
  obtain ⟨q, hwrite, hq⟩ := writeMessage_appends hgives hvalid p h (Nat.zero_le _) hfits
  refine ⟨q, hwrite, hq, fun r hr => ?_⟩
  cases values with
  | nil => exact ⟨r, rfl, by rw [hr.pos, hq.ends h]; rfl⟩
  | cons value values =>
    refine hq.read_back h ?_ (readMessage_reads hvalid) hr
    have hany := wire_length value.1 value.2
    rw [wireMessage, List.flatMap_cons, List.length_append]
    omega

def vector3D : Datum :=
  ⟨.vector (.vector (.vector (.packed .int32))),
    ([[[1], [2, 3], [4]], [], [[10], [20], [30, 40]]] : List (List (List Int32)))⟩

theorem message_comes_back_vector3D : ∃ q r t, writeMessage .ample [vector3D] {} = .ok (.noError, q) ∧
    q.setDataPosition 0 = .ok r ∧ readMessage [vector3D.1] r = .ok (.ok [vector3D], t) := by
  have hend : AtEnd {} := ⟨empty_sound, rfl, rfl, rfl⟩
  obtain ⟨q, hwrite, hq, hread⟩ := message_comes_back ample_gives hend [vector3D]
    (fun value hvalue => by
      obtain rfl := List.mem_singleton.mp hvalue
      exact fun _ _ _ _ _ _ => trivial)
    (by unfold Fits; decide)
  obtain ⟨r, hseek, hr⟩ := hq.rewind hend
  obtain ⟨t, hback, -⟩ := hread r hr
  exact ⟨q, r, t, hwrite, hseek, hback⟩

theorem utf8_comes_back_iff {heap : Heap} (hgives : Gives heap) (h : p.AtEnd) (str : Bytes)
    (hfits : p.Fits (wireUnits (utf16Of str))) :
    p.writeUtf8AsUtf16 heap str = .ok (.badValue, p) ∧ ¬ ValidUtf8 str ∨
      ∃ q, p.writeUtf8AsUtf16 heap str = .ok (.noError, q) ∧ Appended p (wireUnits (utf16Of str)) q ∧
        ∀ r : Parcel, Rewound p q r → ∃ back t, r.readUtf8FromUtf16 = .ok (.ok back, t) ∧ t.mDataPos = q.mDataPos ∧
          ValidUtf8 back ∧ (back = str ↔ ValidUtf8 str) := by
  obtain ⟨measured, hmeasured, -⟩ := utf8ToUtf16Length_measures str
  cases measured with
  | none =>
    refine .inl ⟨by rw [writeUtf8AsUtf16, hmeasured], ?_⟩
    rintro ⟨cs, rfl⟩
    rw [utf8ToUtf16Length_text] at hmeasured
    cases hmeasured
  | some utf16Len =>
    obtain ⟨q, hwrite, hq⟩ := writeUtf8AsUtf16_appends hgives hmeasured p h (Nat.zero_le _) hfits
    refine .inr ⟨q, hwrite, hq, fun r hr => ?_⟩
    have hany : 0 < (wireUnits (utf16Of str)).length := by
      rw [wireUnits_length]
      omega
    obtain ⟨t, hread, ht⟩ := hq.read_back h hany (readUtf8FromUtf16_reads (utf16Of str)) hr
    refine ⟨_, t, hread, ht, ⟨_, rfl⟩, fun hsame => ⟨_, hsame.symm⟩, ?_⟩
    rintro ⟨cs, rfl⟩
    rw [utf16Of_text, utf16Chars_utf16]

theorem utf8_comes_back_accent : ∃ q r t, writeUtf8AsUtf16 .ample {} [0xC3, 0xA9] = .ok (.noError, q) ∧
    q.setDataPosition 0 = .ok r ∧ r.readUtf8FromUtf16 = .ok (.ok [0xC3, 0xA9], t) := by
  have hend : AtEnd {} := ⟨empty_sound, rfl, rfl, rfl⟩
  have haccent : [0xC3, 0xA9] = utf8 ['é'] := by decide
  have hfits : Fits {} (wireUnits (utf16Of [0xC3, 0xA9])) := by
    rw [haccent, utf16Of_text]
    unfold Fits
    decide
  rcases utf8_comes_back_iff ample_gives hend [0xC3, 0xA9] hfits with
    ⟨-, hnot⟩ | ⟨q, hwrite, hq, hread⟩
  · exact absurd ⟨['é'], haccent⟩ hnot
  · obtain ⟨r, hseek, hr⟩ := hq.rewind hend
    obtain ⟨back, t, hback, -, -, hsame⟩ := hread r hr
    obtain rfl := hsame.mpr ⟨['é'], haccent⟩
    exact ⟨q, r, t, hwrite, hseek, hback⟩

end Messages

end Parcel

end BinderDownload.Wire
