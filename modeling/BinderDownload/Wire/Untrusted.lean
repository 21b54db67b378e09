import BinderDownload.Wire.Guard
import BinderDownload.Wire.RoundTrip

namespace BinderDownload.Wire

open Text

namespace Parcel

variable {data bs : Bytes} {objects : List ℕ} {p q : Parcel} {α β : Type} {len step : ℕ}

structure Opened (data : Bytes) (objects : List ℕ) (p : Parcel) : Prop where
  delivered : Delivered data objects p
  pos : p.mDataPos ≤ data.length

/-- The read comes to an end. If there is a value, `post` tells of it and of the number of bytes that it took. -/
def Safe (data : Bytes) (objects : List ℕ) (r : Parcel → Reading α) (post : α → ℕ → Prop) : Prop :=
  ∀ p, Opened data objects p → ∃ x q, r p = .ok (x, q) ∧ Opened data objects q ∧
    ∀ a, x = .ok a → ∃ taken, q.mDataPos = p.mDataPos + taken ∧ post a taken

theorem Safe.next {r : Parcel → Reading α} {k : α → Parcel → Reading β} {post : α → ℕ → Prop} {after : β → ℕ → Prop}
    (h : Safe data objects r post)
    (hnext : ∀ a taken, post a taken → Safe data objects (k a) (fun b more => after b (taken + more))) :
    Safe data objects (fun p => (r p).next k) after := by
  intro p hp
  obtain ⟨x, q, hr, hq, hx⟩ := h p hp
  cases x with
  | error err => exact ⟨.error err, q, by simp only [hr, Reading.next], hq, fun b hb => by cases hb⟩
  | ok a =>
    obtain ⟨taken, htaken, hpost⟩ := hx a rfl
    obtain ⟨y, s, hk, hs, hy⟩ := hnext a taken hpost q hq
    refine ⟨y, s, by simp only [hr, Reading.next, hk], hs, fun b hb => ?_⟩
    obtain ⟨more, hmore, hafter⟩ := hy b hb
    exact ⟨taken + more, by rw [hmore, htaken, Nat.add_assoc], hafter⟩

theorem Safe.map {r : Parcel → Reading α} {post : α → ℕ → Prop} {after : β → ℕ → Prop} {f : α → β}
    (h : Safe data objects r post) (hf : ∀ a taken, post a taken → after (f a) taken) :
    Safe data objects (fun p => (r p).map f) after :=
  h.next (fun a taken hpost p hp => ⟨.ok (f a), p, rfl, hp, fun b hb => by
    obtain rfl := Except.ok.inj hb
    exact ⟨0, rfl, hf a taken hpost⟩⟩)

theorem Safe.imp {r : Parcel → Reading α} {post after : α → ℕ → Prop} (h : Safe data objects r post)
    (himp : ∀ a taken, post a taken → after a taken) : Safe data objects r after := by
  intro p hp
  obtain ⟨x, q, hr, hq, hx⟩ := h p hp
  refine ⟨x, q, hr, hq, fun a ha => ?_⟩
  obtain ⟨taken, htaken, hpost⟩ := hx a ha
  exact ⟨taken, htaken, himp a taken hpost⟩

section Blocks

theorem Opened.take (h : Opened data objects p) (hlen : len ≤ step) :
    ∃ x q, p.take len step = .ok (x, q) ∧ Opened data objects q ∧
      (q.mDataPos = p.mDataPos + step ∨
        data.length < p.mDataPos + step ∧ q.mDataPos = p.mDataPos ∧ x.toOption = none) ∧
      ∀ bytes, x = .ok bytes → bytes.length = len ∧ q.mDataPos = p.mDataPos + step := by
  have hsize := h.delivered.size
  have hpos := h.pos
  rcases take_spec h.delivered.guarded h.delivered.bounded hlen with ⟨bytes, q, hread, htook⟩ |
    ⟨err, q, hread, hrefused⟩
  · have hcursor := htook.rest.pos
    have hwithin := htook.within
    simp only at hcursor
    refine ⟨_, q, hread, ⟨h.delivered.reordered htook.rest htook.guarded, by omega⟩, .inl hcursor,
      fun other heq => ⟨?_, hcursor⟩⟩
    obtain rfl := Except.ok.inj heq
    rw [htook.data, h.delivered.content, List.length_take, List.length_drop]
    omega
  · have hq := h.delivered.refused hrefused
    rcases hrefused.rest with ⟨hbehind, hrest⟩ | ⟨hwithin, hrest⟩
    · have hcursor := hrest.pos
      exact ⟨_, q, hread, ⟨hq, by omega⟩, .inr ⟨by omega, hcursor, rfl⟩, fun bytes heq => by cases heq⟩
    · have hcursor := hrest.pos
      simp only at hcursor
      exact ⟨_, q, hread, ⟨hq, by omega⟩, .inl hcursor, fun bytes heq => by cases heq⟩

theorem readAligned_safe (α : Type) [Packed α] :
    Safe data objects (fun p => p.readAligned α) (fun _ taken => taken = Packed.size α) := by
  intro p hp
  obtain ⟨x, q, hread, hq, -, hx⟩ := hp.take (Nat.le_refl (Packed.size α))
  refine ⟨x.map Packed.unpack, q, by simp only [readAligned, hread, Except.map], hq, fun a ha => ?_⟩
  cases x with
  | error err => cases ha
  | ok bytes => exact ⟨Packed.size α, (hx bytes rfl).2, rfl⟩

theorem Opened.readInplace (h : Opened data objects p) (len : ℕ) :
    ∃ x q, p.readInplace len = .ok (x, q) ∧ Opened data objects q ∧
      ∀ bytes, x = some bytes → bytes.length = len ∧ q.mDataPos = p.mDataPos + padSize len := by
  unfold Parcel.readInplace
  split_ifs with hlarge
  · exact ⟨none, p, rfl, h, fun bytes heq => by cases heq⟩
  · obtain ⟨x, q, hread, hq, -, hx⟩ := h.take (padSize_range len).1
    refine ⟨x.toOption, q, by rw [hread, h.delivered.block]; rfl, hq, fun bytes heq => ?_⟩
    cases x with
    | error err => cases heq
    | ok other =>
      obtain rfl := Option.some.inj heq
      exact hx other rfl

theorem readAlignedOrZero_safe (h : Opened data objects p) :
    ∃ size q, p.readAlignedOrZero Int32 = .ok (size, q) ∧ Opened data objects q ∧
      (q.mDataPos = p.mDataPos + 4 ∨ data.length < p.mDataPos + 4 ∧ q.mDataPos = p.mDataPos ∧ size = 0) := by
  obtain ⟨x, q, hread, hq, hmoves, hx⟩ := h.take (Nat.le_refl (Packed.size Int32))
  cases x with
  | error err =>
    refine ⟨0, q, by rw [readAlignedOrZero, readAligned, hread]; rfl, hq, ?_⟩
    rcases hmoves with hcursor | ⟨hbehind, hstays, -⟩
    · exact .inl hcursor
    · exact .inr ⟨hbehind, hstays, rfl⟩
  | ok bytes => exact ⟨_, q, by rw [readAlignedOrZero, readAligned, hread]; rfl, hq, .inl (hx bytes rfl).2⟩

theorem readString16Inplace_safe (h : Opened data objects p) :
    ∃ x q, p.readString16Inplace = .ok (x, q) ∧ Opened data objects q ∧
      ∀ units, x = some units → q.mDataPos = p.mDataPos + (wireUnits units).length := by
  obtain ⟨size, q, hsize, hq, hmoves⟩ := readAlignedOrZero_safe h
  simp only [readString16Inplace, hsize, bind, Except.bind]
  split_ifs with hrange
  · obtain ⟨x, r, hread, hr, hx⟩ := hq.readInplace ((size.toInt.toNat + 1) * 2)
    simp only [hread]
    cases x with
    | none => exact ⟨none, r, rfl, hr, fun units heq => by cases heq⟩
    | some str =>
      have hcursor := (hx str rfl).2
      have hwithin := hr.pos
      simp only
      split_ifs with hlast
      · refine ⟨_, r, rfl, hr, fun units heq => ?_⟩
        obtain rfl := Option.some.inj heq
        rw [wireUnits_length, List.length_take, Packed.unpackAll_length, Nat.min_eq_left (Nat.le_succ _), hcursor]
        rcases hmoves with hfour | ⟨hbehind, hstays, rfl⟩
        · omega
        · have htwo : padSize (((Int32.toInt 0).toNat + 1) * 2) = 4 := rfl
          omega
      · exact ⟨none, r, rfl, hr, fun units heq => by cases heq⟩
  · exact ⟨none, q, rfl, hq, fun units heq => by cases heq⟩

theorem readString16_safe : Safe data objects readString16
    (fun units taken => (wireUnits units).length ≤ taken ∧ (wireUnits units).length ≤ data.length) := by
  intro p hp
  obtain ⟨x, q, hread, hq, hx⟩ := readString16Inplace_safe hp
  refine ⟨_, q, by rw [readString16, hread]; rfl, hq, fun units heq => ?_⟩
  cases x with
  | none => cases heq
  | some other =>
    obtain rfl := Except.ok.inj heq
    have hcursor := hx other rfl
    have hwithin := hq.pos
    exact ⟨_, hcursor, Nat.le_refl _, by omega⟩

theorem readArray_safe (α : Type) [Packed α] (size : ℕ) : Safe data objects (readArray α size)
    (fun c taken => c.length = size ∧ taken = padSize (size * Packed.size α)) := by
  intro p hp
  obtain ⟨x, q, hread, hq, hx⟩ := hp.readInplace (size * Packed.size α)
  refine ⟨_, q, by rw [readArray, hread]; rfl, hq, fun c heq => ?_⟩
  cases x with
  | none => cases heq
  | some bytes =>
    obtain rfl := Except.ok.inj heq
    exact ⟨_, (hx bytes rfl).2, Packed.unpackAll_length size bytes, rfl⟩

theorem readEach_safe {read : Parcel → Reading α} {good : α → Prop} {wire : α → Bytes}
    (h : Safe data objects read (fun a taken => good a ∧ (wire a).length ≤ taken)) (count : ℕ) :
    Safe data objects (readEach read count) (fun c taken => Every good c ∧ (c.flatMap wire).length ≤ taken) := by
  induction count with
  | zero =>
    intro p hp
    refine ⟨_, p, rfl, hp, fun c heq => ?_⟩
    obtain rfl := Except.ok.inj heq
    exact ⟨0, rfl, fun a ha => absurd ha List.not_mem_nil, Nat.le_refl 0⟩
  | succ count ih =>
    refine h.next (fun a taken ha => ih.map (fun c more hc => ⟨fun b hb => ?_, ?_⟩))
    · rcases List.mem_cons.mp hb with rfl | hb
      · exact ha.1
      · exact hc.1 b hb
    · rw [List.flatMap_cons, List.length_append]
      exact Nat.add_le_add ha.2 hc.2

theorem readElements_safe (s : Shape)
    (h : Safe data objects (readData s) (fun a taken => s.Valid a ∧ (wire s a).length ≤ taken)) (size : ℕ) :
    Safe data objects (readElements s (readData s) size)
      (fun c taken => Every s.Valid c ∧ (wireElements s (wire s) c).length ≤ taken) := by
  have heach := readEach_safe h size
  have hwords {α : Type} {f : Int32 → α} {word : α → Int32} :
      Safe data objects (fun p => (readArray Int32 size p).map (fun c => c.map f)) (fun c taken =>
        Every (fun _ => True) c ∧ (padded (Packed.packAll (c.map word))).length ≤ taken) := by
    refine (readArray_safe Int32 size).map (fun c taken hc => ⟨fun _ _ => trivial, ?_⟩)
    rw [padded_length, Packed.packAll_length, List.length_map, List.length_map, hc.1, hc.2]
  cases s with
  | packed k =>
    refine (readArray_safe k.Value size).imp (fun c taken hc => ⟨fun _ _ => trivial, ?_⟩)
    show (padded (Packed.packAll (α := k.Value) c)).length ≤ taken
    rw [padded_length, Packed.packAll_length, hc.1, hc.2]
  | bool => exact hwords
  | char16 => exact hwords
  | string16 => exact heach
  | utf8 => exact heach
  | vector s => exact heach
  | nullableString16 => exact heach
  | nullableUtf8 => exact heach
  | nullableVector s => exact heach

end Blocks

section Values

variable (hshort : data.length ≤ INT32_MAX)

include hshort

theorem Opened.dataAvail (h : Opened data objects p) : p.dataAvail = .ok (data.length - p.mDataPos) := by
  have hsize := h.delivered.size
  have hpos := h.pos
  have havail : p.dataSize - p.mDataPos = data.length - p.mDataPos := by
    unfold dataSize
    split_ifs <;> omega
  simp only [Parcel.dataAvail, havail]
  exact if_neg (by omega)

theorem Opened.setDataPosition (h : Opened data objects p) {pos : ℕ} (hpos : pos ≤ data.length) :
    ∃ q, p.setDataPosition pos = .ok q ∧ Opened data objects q ∧ q.mDataPos = pos := by
  refine ⟨_, if_neg (by omega), ⟨⟨h.delivered.block, h.delivered.size, h.delivered.listed, ?_⟩, hpos⟩, rfl⟩
  refine ⟨fun hsorted => absurd hsorted Bool.false_ne_true, fun _ object hmem => ?_⟩
  rw [List.take_zero] at hmem
  cases hmem

theorem readUtf8FromUtf16_safe : Safe data objects readUtf8FromUtf16
    (fun str taken => ValidUtf8 str ∧ (wireUnits (utf16Of str)).length ≤ taken) := by
  intro p hp
  obtain ⟨x, q, hread, hq, hx⟩ := readString16Inplace_safe hp
  cases x with
  | none => exact ⟨_, q, by rw [readUtf8FromUtf16, hread], hq, fun str heq => by cases heq⟩
  | some units =>
    have hcursor := hx units rfl
    have hpos := hq.pos
    have hpad := (padSize_range ((units.length + 1) * 2)).1
    have hfewer := utf16_utf16Chars_length units
    rw [hcursor, wireUnits_length] at hpos
    refine ⟨_, q, readUtf8FromUtf16_some hread (by omega), hq, fun str heq => ?_⟩
    obtain rfl := Except.ok.inj heq
    refine ⟨_, hcursor, ⟨_, rfl⟩, ?_⟩
    rw [utf16Of_text, wireUnits_length, wireUnits_length]
    unfold padSize
    omega

theorem readVector_safe {elements : ℕ → Parcel → Reading (List α)} {post : List α → ℕ → Prop}
    (h : ∀ size, Safe data objects (elements size) post) :
    Safe data objects (fun p => p.readVector elements) (fun c taken => ∃ rest, taken = 4 + rest ∧ post c rest) := by
  refine (readAligned_safe Int32).next (fun size taken htaken q hq => ?_)
  obtain rfl := htaken
  simp only [hq.dataAvail hshort]
  split_ifs with hnegative hlarge
  · exact ⟨_, q, rfl, hq, fun c heq => by cases heq⟩
  · exact ⟨_, q, rfl, hq, fun c heq => by cases heq⟩
  · obtain ⟨x, r, hread, hr, hx⟩ := h size.toInt.toNat q hq
    refine ⟨x, r, hread, hr, fun c hc => ?_⟩
    obtain ⟨more, hmore, hpost⟩ := hx c hc
    exact ⟨more, hmore, more, rfl, hpost⟩

theorem readNullable_safe {read : Parcel → Reading α} {good : α → Prop} {wire : α → Bytes}
    (h : Safe data objects read (fun a taken => good a ∧ (wire a).length ≤ taken)) :
    Safe data objects (fun p => p.readNullable read)
      (fun val taken => IfAny good val ∧ (wireNullable wire val).length ≤ taken) := by
  intro p hp
  obtain ⟨x, q, hpeek, hq, hx⟩ := readAligned_safe Int32 p hp
  simp only [readNullable, readInt32] at hpeek ⊢
  rw [hpeek]
  cases x with
  | error err => exact ⟨.error err, q, rfl, hq, fun val heq => by cases heq⟩
  | ok peek =>
    simp only [Reading.next]
    split_ifs with hnull
    · obtain ⟨taken, htaken, hfour⟩ := hx peek rfl
      refine ⟨.ok none, q, rfl, hq, fun val heq => ?_⟩
      obtain rfl := Except.ok.inj heq
      exact ⟨taken, htaken, fun a ha => (by cases ha), hfour.symm.le⟩
    · obtain ⟨back, hseek, hback, hpos⟩ := hq.setDataPosition hshort hp.pos
      have hsome : Safe data objects (fun p => (read p).map some)
          (fun val taken => IfAny good val ∧ (wireNullable wire val).length ≤ taken) :=
        h.map (fun a taken ha => ⟨fun b hb => Option.some.inj hb ▸ ha.1, ha.2⟩)
      obtain ⟨y, r, hread, hr, hy⟩ := hsome back hback
      rw [hpos] at hy
      exact ⟨y, r, by rw [hseek]; exact hread, hr, hy⟩

theorem readData_safe (s : Shape) : Safe data objects (readData s)
    (fun val taken => s.Valid val ∧ (wire s val).length ≤ taken) := by
  have hunits : Safe data objects readString16 (fun str taken => True ∧ (wireUnits str).length ≤ taken) :=
    readString16_safe.imp (fun str taken hle => ⟨trivial, hle.1⟩)
  have hword {α : Type} {f : Int32 → α} {wire : α → Bytes} (hwire : ∀ a, (wire a).length = 4) :
      Safe data objects (fun p => p.readInt32.map f) (fun a taken => True ∧ (wire a).length ≤ taken) :=
    (readAligned_safe Int32).map (fun tmp taken htaken => ⟨trivial, (hwire _).trans_le htaken.symm.le⟩)
  have hpacked (α : Type) [Packed α] :
      Safe data objects (fun p => p.readAligned α) (fun a taken => True ∧ (Packed.pack a).length ≤ taken) :=
    (readAligned_safe α).imp (fun a taken htaken =>
      ⟨trivial, (Packed.pack_length a).trans_le htaken.symm.le⟩)
  have hvector (s : Shape) (h : Safe data objects (readData s) (fun a taken => s.Valid a ∧ (wire s a).length ≤ taken)) :
      Safe data objects (fun p => p.readVector (readElements s (readData s))) (fun c taken =>
        Every s.Valid c ∧ (sizeWord (List.length c) ++ wireElements s (wire s) c).length ≤ taken) := by
    refine (readVector_safe hshort (readElements_safe s h)).imp (fun c taken hc => ?_)
    obtain ⟨rest, rfl, hvalid, hle⟩ := hc
    rw [List.length_append, sizeWord_length]
    exact ⟨hvalid, Nat.add_le_add_left hle 4⟩
  induction s with
  | packed k =>
    cases k with
    | int8 => exact hword (fun val => Packed.pack_length (Int8.toInt32 val))
    | uint8 =>
      have hbyte : Safe data objects (fun p => p.readByte)
          (fun val taken => True ∧ (Packed.pack (Int8.toInt32 val)).length ≤ taken) :=
        hword (fun val => Packed.pack_length _)
      exact hbyte.map (fun val taken hval => hval)
    | int32 => exact hpacked Int32
    | uint32 => exact hpacked UInt32
    | int64 => exact hpacked Int64
    | uint64 => exact hpacked UInt64
  | bool => exact hword (fun val => rfl)
  | char16 => exact hword (fun val => rfl)
  | string16 => exact hunits
  | utf8 => exact readUtf8FromUtf16_safe hshort
  | vector s ih => exact hvector s ih
  | nullableString16 => exact (readNullable_safe hshort hunits).imp (fun val taken hval => ⟨trivial, hval.2⟩)
  | nullableUtf8 => exact readNullable_safe hshort (readUtf8FromUtf16_safe hshort)
  | nullableVector s ih => exact readNullable_safe hshort (hvector s ih)

theorem readMessage_safe (shapes : List Shape) : Safe data objects (readMessage shapes)
    (fun values taken => Every (fun value => value.1.Valid value.2) values ∧ (wireMessage values).length ≤ taken) := by
  induction shapes with
  | nil =>
    intro p hp
    refine ⟨_, p, rfl, hp, fun values heq => ?_⟩
    obtain rfl := Except.ok.inj heq
    exact ⟨0, rfl, fun value hvalue => absurd hvalue List.not_mem_nil, Nat.le_refl 0⟩
  | cons s shapes ih =>
    refine (readData_safe hshort s).next (fun a taken ha => ih.map (fun values more hvalues => ⟨fun value hvalue => ?_,
      ?_⟩))
    · rcases List.mem_cons.mp hvalue with rfl | hvalue
      · exact ha.1
      · exact hvalues.1 value hvalue
    · rw [wireMessage, List.flatMap_cons, List.length_append]
      exact Nat.add_le_add ha.2 hvalues.2

theorem readMessage_received (objects : List ℕ) (shapes : List Shape) :
    ∃ x q, readMessage shapes (received data objects) = .ok (x, q) ∧ q.content = data ∧ q.mDataPos ≤ data.length ∧
      ∀ values, x = .ok values → (∀ value ∈ values, value.1.Valid value.2) ∧
        (wireMessage values).length ≤ q.mDataPos := by
  have hopened : Opened data objects (received data objects) := ⟨received_delivered data objects, Nat.zero_le _⟩
  obtain ⟨x, q, hread, hq, hx⟩ := readMessage_safe hshort shapes (received data objects) hopened
  refine ⟨x, q, hread, hq.delivered.content, hq.pos, fun values hvalues => ?_⟩
  obtain ⟨taken, htaken, hvalid, hle⟩ := hx values hvalues
  have hstart : q.mDataPos = taken := htaken.trans (Nat.zero_add taken)
  exact ⟨hvalid, hle.trans hstart.symm.le⟩

omit hshort in
theorem readMessage_received_oversized : ∃ x q,
    readMessage [.vector .string16] (received [0xFF, 0xFF, 0xFF, 0x7F] [0]) = .ok (x, q) ∧
      q.content = [0xFF, 0xFF, 0xFF, 0x7F] ∧ q.mDataPos ≤ 4 ∧
      ∀ values, x = .ok values → (∀ value ∈ values, value.1.Valid value.2) ∧
        (wireMessage values).length ≤ q.mDataPos :=
  readMessage_received (by decide) [0] [.vector .string16]

end Values

end Parcel

end BinderDownload.Wire
