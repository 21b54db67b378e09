import BinderDownload.Wire.Data
import BinderDownload.Wire.Utf8
import BinderDownload.Wire.Writes

namespace BinderDownload.Wire

open Text

def sizeWord (size : ℕ) : Bytes := Packed.pack (Int32.ofNat size)

def wireUnits (units : List UInt16) : Bytes := sizeWord units.length ++ Parcel.padded (Packed.packAll (units ++ [0]))

def utf16Of (str : Bytes) : List UInt16 :=
  match utf8ToUtf16Length str with
  | .ok (some utf16Len) => (utf8ToUtf16From str utf16Len).toOption.getD []
  | _ => []

def wireKind : (k : Kind) → k.Value → Bytes
  | .int8, val => Packed.pack (Int8.toInt32 val)
  | .uint8, val => Packed.pack (Int8.toInt32 (UInt8.toInt8 val))
  | .int32, val => Packed.pack (α := Int32) val
  | .uint32, val => Packed.pack (α := UInt32) val
  | .int64, val => Packed.pack (α := Int64) val
  | .uint64, val => Packed.pack (α := UInt64) val

def wireElements : (s : Shape) → (s.Value → Bytes) → List s.Value → Bytes
  | .packed k, _, c => Parcel.padded (Packed.packAll (α := k.Value) c)
  | .bool, _, c => Parcel.padded (Packed.packAll (c.map boolWord))
  | .char16, _, c => Parcel.padded (Packed.packAll (c.map charWord))
  | _, wire, c => c.flatMap wire

def wireNullable {α : Type} (wire : α → Bytes) : Option α → Bytes
  | none => Packed.pack (-1 : Int32)
  | some a => wire a

def wire : (s : Shape) → s.Value → Bytes
  | .packed k, val => wireKind k val
  | .bool, val => Packed.pack (boolWord val)
  | .char16, val => Packed.pack (charWord val)
  | .string16, val => wireUnits val
  | .utf8, val => wireUnits (utf16Of val)
  | .vector s, c => sizeWord (List.length c) ++ wireElements s (wire s) c
  | .nullableString16, val => wireNullable wireUnits val
  | .nullableUtf8, val => wireNullable (fun str => wireUnits (utf16Of str)) val
  | .nullableVector s, val => wireNullable (fun c => sizeWord (List.length c) ++ wireElements s (wire s) c) val

def Every {α : Type} (valid : α → Prop) (c : List α) : Prop := ∀ a ∈ c, valid a

def IfAny {α : Type} (valid : α → Prop) (val : Option α) : Prop := ∀ a ∈ val, valid a

def Shape.Valid : (s : Shape) → s.Value → Prop
  | .utf8, str => ValidUtf8 str
  | .nullableUtf8, val => IfAny ValidUtf8 val
  | .vector s, c => Every s.Valid c
  | .nullableVector s, val => IfAny (Every s.Valid) val
  | _, _ => True

section Sizes

@[simp] theorem sizeWord_length (size : ℕ) : (sizeWord size).length = 4 := Packed.pack_length _

theorem wireUnits_length (units : List UInt16) :
    (wireUnits units).length = 4 + padSize ((units.length + 1) * 2) := by
  rw [wireUnits, List.length_append, sizeWord_length, Parcel.padded_length, Packed.packAll_length, List.length_append]
  rfl

theorem wireNullable_length {α : Type} {wire : α → Bytes} (h : ∀ a, 4 ≤ (wire a).length) (val : Option α) :
    4 ≤ (wireNullable wire val).length := by
  cases val with
  | none => exact Nat.le_refl 4
  | some a => exact h a

theorem wire_length (s : Shape) (val : s.Value) : 4 ≤ (wire s val).length := by
  have hunits (units : List UInt16) : 4 ≤ (wireUnits units).length := by
    rw [wireUnits_length]
    omega
  have hvector (s : Shape) (c : List s.Value) : 4 ≤ (sizeWord c.length ++ wireElements s (wire s) c).length := by
    rw [List.length_append, sizeWord_length]
    omega
  cases s with
  | packed k =>
    have hpack {α : Type} [Packed α] (a : α) (h : 4 ≤ Packed.size α) : 4 ≤ (Packed.pack a).length := by
      rw [Packed.pack_length]
      exact h
    cases k with
    | int8 => exact hpack (Int8.toInt32 val) (by decide)
    | uint8 => exact hpack (Int8.toInt32 (UInt8.toInt8 val)) (by decide)
    | int32 => exact hpack (α := Int32) val (by decide)
    | uint32 => exact hpack (α := UInt32) val (by decide)
    | int64 => exact hpack (α := Int64) val (by decide)
    | uint64 => exact hpack (α := UInt64) val (by decide)
  | bool => exact Nat.le_refl 4
  | char16 => exact Nat.le_refl 4
  | string16 => exact hunits val
  | utf8 => exact hunits (utf16Of val)
  | vector s => exact hvector s val
  | nullableString16 => exact wireNullable_length hunits val
  | nullableUtf8 => exact wireNullable_length (fun str => hunits (utf16Of str)) val
  | nullableVector s => exact wireNullable_length (hvector s) val

theorem flatMap_length {α : Type} {wire : α → Bytes} (h : ∀ a, 4 ≤ (wire a).length) (c : List α) :
    c.length ≤ (c.flatMap wire).length := by
  induction c with
  | nil => exact Nat.le_refl 0
  | cons a c ih =>
    have ha := h a
    rw [List.flatMap_cons, List.length_append, List.length_cons]
    omega

theorem padded_packAll_length {α : Type} [Packed α] (c : List α) :
    c.length ≤ (Parcel.padded (Packed.packAll c)).length := by
  have hpad := (padSize_range (c.length * Packed.size α)).1
  have hsize := Nat.le_mul_of_pos_right c.length (Packed.size_pos (α := α))
  rw [Parcel.padded_length, Packed.packAll_length]
  omega

theorem wireElements_length (s : Shape) (c : List s.Value) : c.length ≤ (wireElements s (wire s) c).length := by
  cases s with
  | packed k => exact padded_packAll_length (α := k.Value) c
  | bool => exact (List.length_map boolWord).symm.trans_le (padded_packAll_length (c.map boolWord))
  | char16 => exact (List.length_map charWord).symm.trans_le (padded_packAll_length (c.map charWord))
  | string16 => exact flatMap_length (wire_length .string16) c
  | utf8 => exact flatMap_length (wire_length .utf8) c
  | vector s => exact flatMap_length (wire_length (.vector s)) c
  | nullableString16 => exact flatMap_length (wire_length .nullableString16) c
  | nullableUtf8 => exact flatMap_length (wire_length .nullableUtf8) c
  | nullableVector s => exact flatMap_length (wire_length (.nullableVector s)) c

end Sizes

theorem utf16Of_measured {str : Bytes} {utf16Len : ℕ} (h : utf8ToUtf16Length str = .ok (some utf16Len)) :
    utf8ToUtf16From str utf16Len = .ok (utf16Of str) ∧ (utf16Of str).length = utf16Len := by
  obtain ⟨measured, hmeasured, hunits⟩ := utf8ToUtf16Length_measures str
  rw [h] at hmeasured
  obtain ⟨units, hread, hlength⟩ := hunits utf16Len (Except.ok.inj hmeasured).symm
  simp only [utf16Of, h, hread, Except.toOption, Option.getD_some]
  exact ⟨trivial, hlength⟩

theorem utf8ToUtf16_units {str : Bytes} {utf16Len : ℕ} (h : utf8ToUtf16Length str = .ok (some utf16Len))
    (hle : utf16Len ≤ INT32_MAX) : utf8ToUtf16 str (utf16Len + 1) = .ok (utf16Of str ++ [0]) := by
  obtain ⟨hread, hlength⟩ := utf16Of_measured h
  have hmax : INT32_MAX + 1 ≤ SSIZE_MAX := by decide
  rw [utf8ToUtf16, if_neg (by omega), Nat.add_sub_cancel, utf8ToUtf16NoNullTerminator]
  split_ifs with hzero hlarge
  · rw [List.eq_nil_of_length_eq_zero (hlength.trans hzero)]
    rfl
  · omega
  · rw [hread]
    rfl

theorem utf16Of_text (cs : List Char) : utf16Of (utf8 cs) = utf16 cs := by
  have hread := (utf16Of_measured (utf8ToUtf16Length_text cs)).1
  rw [utf8ToUtf16From_text] at hread
  exact (Except.ok.inj hread).symm

theorem utf16ToUtf8_measured {units : List UInt16} (hany : units ≠ []) (hle : units.length ≤ INT32_MAX) :
    utf16ToUtf8Length units = some (utf8 (utf16Chars units)).length ∧
      utf16ToUtf8 units ((utf8 (utf16Chars units)).length + 1) = .ok (utf8 (utf16Chars units)) := by
  have hbytes := utf16Chars_length units
  have hmax : 3 * INT32_MAX ≤ SSIZE_MAX := by decide
  refine ⟨?_, utf16ToUtf8_reads units (Nat.lt_succ_self _)⟩
  have hmeasure := @utf16ToUtf8LengthFrom_reads units 0 (by omega)
  rw [Nat.zero_add] at hmeasure
  rw [utf16ToUtf8Length, if_neg (by simpa using hany), hmeasure]

namespace Parcel

variable {heap : Heap} {p q : Parcel} {as bs : Bytes} {least : ℕ}

structure AtEnd (p : Parcel) : Prop where
  sound : p.Sound
  pos : p.mDataPos = p.mDataSize
  error : p.mError = .noError
  objects : p.mObjects = []

structure Appended (p : Parcel) (bs : Bytes) (q : Parcel) : Prop where
  atEnd : q.AtEnd
  content : q.content = p.content ++ bs

theorem Appended.size (hsound : p.Sound) (h : Appended p bs q) : q.mDataSize = p.mDataSize + bs.length := by
  rw [← h.atEnd.sound.content_length, h.content, List.length_append, hsound.content_length]

theorem Wrote.appended (h : p.AtEnd) (hwrote : Wrote p bs q) : Appended p bs q := by
  have hlength := h.sound.content_length
  have hcontent : q.content = p.content ++ bs := by
    rw [hwrote.content]
    by_cases hnil : bs = []
    · rw [hnil, overlay_nil, List.append_nil]
    · rw [h.pos, ← hlength, overlay_over 0 _ _ (Nat.le_add_right _ _) hnil, List.take_length, Nat.sub_self,
        List.replicate_zero, List.append_nil]
  refine ⟨⟨hwrote.sound, ?_, hwrote.error.trans h.error, hwrote.objects.trans h.objects⟩, hcontent⟩
  rw [hwrote.pos, h.pos, ← hwrote.sound.content_length, hcontent, List.length_append, hlength]

def Fits (p : Parcel) (bs : Bytes) : Prop := (p.mDataSize + bs.length) * 3 / 2 ≤ INT32_MAX

/-- There is memory for every block that a parcel may have. -/
def Gives (heap : Heap) : Prop := ∀ size ≤ INT32_MAX, heap.alloc size ≠ none

def Appends (least : ℕ) (w : Parcel → Writing) (bs : Bytes) : Prop :=
  ∀ p : Parcel, p.AtEnd → least ≤ p.mDataSize → p.Fits bs → ∃ q, w p = .ok (.noError, q) ∧ Appended p bs q

theorem Fits.le (h : p.Fits bs) : bs.length ≤ INT32_MAX := by
  unfold Fits at h
  omega

theorem Fits.hasRoom (h : p.Fits bs) (hgives : Gives heap) : p.HasRoom heap bs.length := by
  have hmax : 128 ≤ INT32_MAX := by decide
  have hle : p.grownSize bs.length ≤ INT32_MAX := Nat.max_le.mpr ⟨h, hmax⟩
  exact .inr ⟨hle, hgives _ hle⟩

theorem Fits.front (h : p.Fits (as ++ bs)) : p.Fits as := by
  unfold Fits at h ⊢
  rw [List.length_append] at h
  omega

theorem Fits.rest (hsound : p.Sound) (h : p.Fits (as ++ bs)) (hfront : Appended p as q) : q.Fits bs := by
  unfold Fits at h ⊢
  rw [List.length_append, ← Nat.add_assoc] at h
  rw [hfront.size hsound]
  exact h

theorem Appended.trans {r : Parcel} (h : Appended p as q) (hrest : Appended q bs r) : Appended p (as ++ bs) r :=
  ⟨hrest.atEnd, by rw [hrest.content, h.content, List.append_assoc]⟩

theorem Appends.next {w v : Parcel → Writing} (h : Appends 0 w as) (hnext : Appends 0 v bs) :
    Appends 0 (fun p => (w p).next v) (as ++ bs) := by
  intro p hend hleast hfits
  obtain ⟨q, hw, hq⟩ := h p hend hleast hfits.front
  obtain ⟨r, hv, hr⟩ := hnext q hq.atEnd (Nat.zero_le _) (hfits.rest hend.sound hq)
  refine ⟨r, ?_, hq.trans hr⟩
  simp only [hw, Writing.next, hv]

theorem Appends.weaken {least' : ℕ} {w : Parcel → Writing} (h : Appends least w bs) (hle : least ≤ least') :
    Appends least' w bs :=
  fun p hend hleast hfits => h p hend (hle.trans hleast) hfits

theorem nothing_appends : Appends 0 (fun p => .ok (.noError, p)) [] :=
  fun p hend _ _ => ⟨p, rfl, hend, (List.append_nil _).symm⟩

theorem writeEach_appends {α : Type} {write : α → Parcel → Writing} {wire : α → Bytes} {c : List α}
    (h : ∀ a ∈ c, Appends 0 (write a) (wire a)) : Appends 0 (writeEach write c) (c.flatMap wire) := by
  induction c with
  | nil => exact nothing_appends
  | cons a c ih =>
    rw [List.flatMap_cons]
    exact (h a List.mem_cons_self).next (ih (fun b hb => h b (List.mem_cons_of_mem a hb)))

section Writes

variable (hgives : Gives heap)

include hgives

theorem writeAligned_appends {α : Type} [Packed α] (val : α) :
    Appends 0 (fun p => p.writeAligned heap val) (Packed.pack val) := by
  intro p hend _ hfits
  have hroom := hfits.hasRoom hgives
  rw [Packed.pack_length] at hroom
  obtain ⟨q, hwrite, hwrote⟩ := writeAligned_ok hend.sound val hroom
  exact ⟨q, hwrite, hwrote.appended hend⟩

theorem fill_appends (least : ℕ) (data : Bytes) (missing : Parcel → StatusT) (hany : data = [] → 0 < least) :
    Appends least (fun p => fill (p.writeInplace heap data.length) (.ok data) missing) (padded data) := by
  intro p hend hleast hfits
  have hroom := hfits.hasRoom hgives
  rw [padded_length] at hroom
  obtain ⟨q, r, d, hplace, hd, -, hstore, hwrote, -⟩ := writeInplace_ok hend.sound data hroom
  rcases hd with rfl | ⟨rfl, hnil, hsize⟩
  · refine ⟨r, ?_, hwrote.appended hend⟩
    simp only [fill, hplace, Except.bind, hstore, Except.map]
  · have hpos := hany hnil
    omega

theorem write_appends (data : Bytes) : Appends 0 (fun p => p.write heap data) (padded data) := by
  intro p hend _ hfits
  have hroom := hfits.hasRoom hgives
  rw [padded_length] at hroom
  obtain ⟨err, q, hwrite, hwrote, htold⟩ := write_ok hend.sound hroom
  have herr : err = .noError := by
    rcases htold with herr | ⟨-, herr⟩
    · exact herr
    · exact herr.trans hend.error
  rw [herr] at hwrite
  exact ⟨q, hwrite, hwrote.appended hend⟩

theorem writeUnits_appends {units : List UInt16} {room : ℕ} (hroom : room = (units.length + 1) * 2)
    (missing : Parcel → StatusT) :
    Appends 0 (fun p => (p.writeInt32 heap (Int32.ofNat units.length)).next (fun p =>
      fill (p.writeInplace heap room) (.ok (Packed.packAll (units ++ [0]))) missing)) (wireUnits units) := by
  have hlength : (Packed.packAll (units ++ [0])).length = room := by
    rw [Packed.packAll_length, List.length_append, hroom]
    rfl
  have hfill := fill_appends hgives 0 (Packed.packAll (units ++ [0])) missing (fun hnil => by
    rw [hnil, List.length_nil] at hlength
    omega)
  rw [hlength] at hfill
  exact (writeAligned_appends hgives _).next hfill

theorem writeString16_appends (str : List UInt16) :
    Appends 0 (fun p => p.writeString16 heap str) (wireUnits str) :=
  writeUnits_appends hgives (by omega) mError

theorem writeUtf8AsUtf16_appends {str : Bytes} {utf16Len : ℕ} (h : utf8ToUtf16Length str = .ok (some utf16Len)) :
    Appends 0 (fun p => p.writeUtf8AsUtf16 heap str) (wireUnits (utf16Of str)) := by
  intro p hend hleast hfits
  have hlength := (utf16Of_measured h).2
  have hle : utf16Len ≤ INT32_MAX := by
    have hbytes := hfits.le
    have hpad := (padSize_range ((utf16Len + 1) * 2)).1
    rw [wireUnits_length, hlength] at hbytes
    omega
  have hroom : (utf16Len + 1) * 2 = ((utf16Of str).length + 1) * 2 := by rw [hlength]
  have hunits := writeUnits_appends hgives hroom (fun _ => .noMemory) p hend hleast hfits
  rw [hlength] at hunits
  simp only [writeUtf8AsUtf16, h, if_neg (Nat.not_lt.mpr hle), utf8ToUtf16_units h hle, Except.map]
  exact hunits

theorem writeVector_appends {α : Type} {c : List α} {elements : Parcel → Writing} (hlength : c.length ≤ bs.length)
    (h : Appends 4 elements bs) : Appends 0 (fun p => p.writeVector heap c elements) (sizeWord c.length ++ bs) := by
  intro p hend hleast hfits
  have hbytes := hfits.le
  rw [List.length_append] at hbytes
  obtain ⟨q, hsize, hq⟩ := writeAligned_appends hgives (Int32.ofNat c.length) p hend hleast hfits.front
  have hfour := hq.size hend.sound
  rw [Packed.pack_length] at hfour
  obtain ⟨r, helements, hr⟩ := h q hq.atEnd (hfour ▸ Nat.le_add_left 4 _) (hfits.rest hend.sound hq)
  refine ⟨r, ?_, hq.trans hr⟩
  simp only [writeVector, if_neg (Nat.not_lt.mpr (show c.length ≤ INT32_MAX by omega)), writeInt32, hsize, Except.bind,
    helements]

theorem writeArray_appends {α : Type} [Packed α] (c : List α) :
    Appends 0 (fun p => p.writeArray heap c) (padded (Packed.packAll c)) := by
  intro p hend hleast hfits
  have hbytes := hfits.le
  have hpad := (padSize_range (c.length * Packed.size α)).1
  rw [padded_length, Packed.packAll_length] at hbytes
  have hlimit : ¬ c.length > SIZE_MAX / Packed.size α := by
    rw [gt_iff_lt, Nat.div_lt_iff_lt_mul Packed.size_pos]
    exact Nat.not_lt.mpr ((hpad.trans hbytes).trans (by decide))
  obtain ⟨q, hwrite, hq⟩ := write_appends hgives (Packed.packAll c) p hend hleast hfits
  exact ⟨q, by simp only [writeArray, if_neg hlimit, hwrite], hq⟩

theorem writeWords_appends (c : List Int32) :
    Appends 4 (fun p => p.writeWords heap c) (padded (Packed.packAll c)) := by
  have hfill := fill_appends hgives 4 (Packed.packAll c) (fun _ => .badValue) (fun _ => by omega)
  rw [Packed.packAll_length] at hfill
  exact hfill

theorem writeElements_appends (s : Shape) {write : s.Value → Parcel → Writing} {wire : s.Value → Bytes}
    {c : List s.Value} (h : ∀ a ∈ c, Appends 0 (write a) (wire a)) :
    Appends 4 (writeElements heap s write c) (wireElements s wire c) := by
  have heach := (writeEach_appends h).weaken (Nat.zero_le 4)
  cases s with
  | packed k => exact (writeArray_appends hgives (α := k.Value) c).weaken (Nat.zero_le 4)
  | bool => exact writeWords_appends hgives (c.map boolWord)
  | char16 => exact writeWords_appends hgives (c.map charWord)
  | string16 => exact heach
  | utf8 => exact heach
  | vector s => exact heach
  | nullableString16 => exact heach
  | nullableUtf8 => exact heach
  | nullableVector s => exact heach

theorem writeNullable_appends {α : Type} {write : α → Parcel → Writing} {wire : α → Bytes} {val : Option α}
    (h : ∀ a ∈ val, Appends 0 (write a) (wire a)) :
    Appends 0 (fun p => writeNullable heap write val p) (wireNullable wire val) := by
  cases val with
  | none => exact writeAligned_appends hgives (-1 : Int32)
  | some a => exact h a rfl

theorem writeKind_appends (k : Kind) (val : k.Value) : Appends 0 (writeKind heap k val) (wireKind k val) := by
  cases k with
  | int8 => exact writeAligned_appends hgives (Int8.toInt32 val)
  | uint8 => exact writeAligned_appends hgives (Int8.toInt32 (UInt8.toInt8 val))
  | int32 => exact writeAligned_appends hgives (α := Int32) val
  | uint32 => exact writeAligned_appends hgives (α := UInt32) val
  | int64 => exact writeAligned_appends hgives (α := Int64) val
  | uint64 => exact writeAligned_appends hgives (α := UInt64) val

theorem writeText_appends {str : Bytes} (h : ValidUtf8 str) :
    Appends 0 (fun p => p.writeUtf8AsUtf16 heap str) (wireUnits (utf16Of str)) := by
  obtain ⟨cs, rfl⟩ := h
  exact writeUtf8AsUtf16_appends hgives (utf8ToUtf16Length_text cs)

theorem writeData_appends (s : Shape) (val : s.Value) (hvalid : s.Valid val) :
    Appends 0 (writeData heap s val) (wire s val) := by
  induction s with
  | packed k => exact writeKind_appends hgives k val
  | bool => exact writeAligned_appends hgives (boolWord val)
  | char16 => exact writeAligned_appends hgives (charWord val)
  | string16 => exact writeString16_appends hgives val
  | utf8 => exact writeText_appends hgives hvalid
  | vector s ih =>
    exact writeVector_appends hgives (wireElements_length s val)
      (writeElements_appends hgives s (fun a ha => ih a (hvalid a ha)))
  | nullableString16 => exact writeNullable_appends hgives (fun str _ => writeString16_appends hgives str)
  | nullableUtf8 => exact writeNullable_appends hgives (fun str hstr => writeText_appends hgives (hvalid str hstr))
  | nullableVector s ih =>
    exact writeNullable_appends hgives (fun c hc => writeVector_appends hgives (wireElements_length s c)
      (writeElements_appends hgives s (fun a ha => ih a (hvalid c hc a ha))))

end Writes

end Parcel

end BinderDownload.Wire
