import BinderDownload.Wire.Parcel

namespace BinderDownload.Wire

open Text

theorem padSize_range (len : ℕ) : len ≤ padSize len ∧ padSize len < len + 4 ∧ padSize len % 4 = 0 := by
  unfold padSize
  omega

@[simp] theorem padding_length (len : ℕ) : (padding len).length = padSize len - len := List.length_replicate

namespace Parcel

variable {p q : Parcel} {heap : Heap} {len pos : ℕ} {bs : Bytes}

def content (p : Parcel) : Bytes := (p.mData.getD []).take p.mDataSize

structure Sound (p : Parcel) : Prop where
  pos : p.mDataPos ≤ p.mDataSize
  size : p.mDataSize ≤ p.mDataCapacity
  capacity : p.mDataCapacity ≤ INT32_MAX

theorem empty_sound : Sound {} := ⟨Nat.le_refl 0, Nat.le_refl 0, Nat.zero_le _⟩

theorem Sound.content_length (h : p.Sound) : p.content.length = p.mDataSize := by
  have hsize := h.size
  unfold mDataCapacity at hsize
  rw [content, List.length_take]
  omega

def grownSize (p : Parcel) (len : ℕ) : ℕ := max (((p.mDataSize + len) * 3) / 2) 128

structure Wrote (p : Parcel) (bs : Bytes) (q : Parcel) : Prop where
  sound : q.Sound
  content : q.content = overlay 0 p.content p.mDataPos bs
  pos : q.mDataPos = p.mDataPos + bs.length
  error : q.mError = p.mError
  objects : q.mObjects = p.mObjects

structure Kept (p q : Parcel) : Prop where
  sound : q.Sound
  content : q.content = p.content
  pos : q.mDataPos = p.mDataPos
  objects : q.mObjects = p.mObjects

theorem Kept.refl (h : p.Sound) : Kept p p := ⟨h, rfl, rfl, rfl⟩

structure Moved (p q : Parcel) : Prop where
  kept : Kept p q
  error : q.mError = p.mError
  size : q.mDataSize = p.mDataSize

theorem overlay_take {data : Bytes} {size : ℕ} (hpos : pos ≤ size) (hsize : size ≤ data.length)
    (hend : pos + bs.length ≤ data.length) :
    (overlay 0 data pos bs).take (max size (pos + bs.length)) = overlay 0 (data.take size) pos bs := by
  by_cases hbs : bs = []
  · subst hbs
    rw [overlay_nil, overlay_nil, List.length_nil, Nat.add_zero, Nat.max_eq_left hpos]
  · have hcut : (data.take size).length = size := by
      rw [List.length_take]
      omega
    have hfront : (data.take pos ++ bs).length = pos + bs.length := by
      rw [List.length_append, List.length_take]
      omega
    rw [overlay_ne 0 data pos hbs, overlay_ne 0 (data.take size) pos hbs, hcut, Nat.sub_eq_zero_of_le (by omega),
      Nat.sub_eq_zero_of_le hpos, List.replicate_zero, List.append_nil, List.append_nil, List.take_take,
      Nat.min_eq_left hpos, List.take_append, hfront, List.take_of_length_le (by omega), List.drop_take]
    congr 2
    omega

section Growth

variable {desired : ℕ} {block : Bytes}

def moved (p : Parcel) (block : Bytes) : Parcel := { p with mData := some (overlay 0 block 0 (p.mData.getD [])) }

theorem moved_capacity (h : p.mDataCapacity ≤ block.length) : (p.moved block).mDataCapacity = block.length := by
  show (overlay 0 block 0 (p.mData.getD [])).length = block.length
  by_cases hnil : p.mData.getD [] = []
  · rw [hnil, overlay_nil]
  · rw [overlay_length 0 block 0 hnil, Nat.zero_add]
    exact Nat.max_eq_left h

theorem moved_moves (h : p.Sound) (hlarger : p.mDataCapacity ≤ block.length) (hmax : block.length ≤ INT32_MAX) :
    Moved p (p.moved block) := by
  have hcapacity := moved_capacity hlarger
  refine ⟨⟨⟨h.pos, ?_, ?_⟩, ?_, rfl, rfl⟩, rfl, rfl⟩
  · rw [hcapacity]
    exact h.size.trans hlarger
  · rw [hcapacity]
    exact hmax
  · have hfits : p.mDataSize ≤ (p.mData.getD []).length := h.size
    show (overlay 0 block 0 (p.mData.getD [])).take p.mDataSize = (p.mData.getD []).take p.mDataSize
    by_cases hnil : p.mData.getD [] = []
    · rw [hnil, List.length_nil] at hfits
      rw [Nat.le_zero.mp hfits, List.take_zero, List.take_zero]
    · rw [overlay_ne 0 block 0 hnil, List.take_zero, Nat.zero_sub, List.replicate_zero, List.append_nil,
      List.nil_append,
        List.take_append_of_le_length hfits]

theorem continueWrite_grows (h : p.Sound) (hle : desired ≤ INT32_MAX)
    (hgrow : p.mData = none ∨ p.mDataCapacity < desired) :
    continueWrite heap p desired = match heap.alloc desired with
      | some block => (.noError, p.moved block)
      | none => (.noMemory, { p with mError := .noMemory }) := by
  unfold continueWrite
  rw [if_neg (Nat.not_lt.mpr hle)]
  cases hdata : p.mData with
  | none =>
    have hsize := h.size
    rw [mDataCapacity, hdata] at hsize
    have hzero : p.mDataSize = 0 := Nat.le_zero.mp hsize
    have hstart : p.mDataPos = 0 := Nat.le_zero.mp (hzero ▸ h.pos)
    cases heap.alloc desired with
    | none => rfl
    | some block => simp only [moved, hdata, hzero, hstart, Option.getD_none, overlay_nil]
  | some data =>
    have hlarger : p.mDataCapacity < desired := hgrow.resolve_left (by rw [hdata]; exact Option.some_ne_none _)
    have hlength : data.length = p.mDataCapacity := by rw [mDataCapacity, hdata, Option.getD_some]
    have hsize := h.size
    have hobjects : p.dropObjects (p.objectsWithin desired) = p := by
      rw [objectsWithin, if_neg (by omega), dropObjects, if_neg (Nat.lt_irrefl _)]
    simp only [hobjects]
    rw [if_pos (by omega)]
    cases heap.alloc desired with
    | none => simp only [hdata]
    | some block => simp only [moved, hdata, Option.getD_some]

theorem continueWrite_cuts (h : p.Sound) (hdata : p.mData ≠ none) (hle : desired ≤ p.mDataCapacity) :
    ∃ q, continueWrite heap p desired = (.noError, q) ∧ q.Sound ∧ q.content = p.content.take desired ∧
      q.mDataPos = min p.mDataPos desired ∧ q.mDataSize = min p.mDataSize desired ∧ q.mError = p.mError ∧
      q.mDataCapacity = p.mDataCapacity := by
  obtain ⟨data, hsome⟩ := Option.ne_none_iff_exists'.mp hdata
  have hlength : data.length = p.mDataCapacity := by rw [mDataCapacity, hsome, Option.getD_some]
  have hcapacity := h.capacity
  have hsize := h.size
  have hpos := h.pos
  have hdropped (objects : List ℕ) : (p.dropObjects objects).mData = p.mData ∧
      (p.dropObjects objects).mDataSize = p.mDataSize ∧ (p.dropObjects objects).mDataPos = p.mDataPos ∧
      (p.dropObjects objects).mError = p.mError := by
    unfold dropObjects
    split_ifs <;> exact ⟨rfl, rfl, rfl, rfl⟩
  obtain ⟨hsame, hsizes, hcursor, herror⟩ := hdropped (p.objectsWithin desired)
  unfold continueWrite
  rw [if_neg (by omega), hsome]
  simp only
  rw [if_neg (by omega)]
  refine ⟨_, rfl, ⟨?_, ?_, ?_⟩, ?_, ?_, ?_, herror, ?_⟩
  · show min _ _ ≤ min _ _
    rw [hcursor, hsizes]
    omega
  · show min _ _ ≤ ((p.dropObjects _).mData.getD []).length
    rw [hsame, hsizes]
    exact (min_le_left _ _).trans hsize
  · show ((p.dropObjects _).mData.getD []).length ≤ _
    rw [hsame]
    exact hcapacity
  · show ((p.dropObjects _).mData.getD []).take (min _ _) = _
    rw [hsame, hsizes, content, List.take_take, Nat.min_comm]
  · show min _ _ = _
    rw [hcursor]
  · show min _ _ = _
    rw [hsizes]
  · show ((p.dropObjects _).mData.getD []).length = _
    rw [hsame]
    rfl

def HasRoom (heap : Heap) (p : Parcel) (len : ℕ) : Prop :=
  p.mDataPos + len ≤ p.mDataCapacity ∨ p.grownSize len ≤ INT32_MAX ∧ heap.alloc (p.grownSize len) ≠ none

theorem Kept.failed (h : p.Sound) : Kept p { p with mError := .noMemory } :=
  ⟨⟨h.pos, h.size, h.capacity⟩, rfl, rfl, rfl⟩

theorem HasRoom.le (h : p.Sound) (hroom : p.HasRoom heap len) : len ≤ INT32_MAX := by
  have hcapacity := h.capacity
  rcases hroom with hfits | ⟨hle, -⟩
  · omega
  · unfold grownSize at hle
    omega

theorem growData_eq (h : p.Sound) (hlen : len ≤ INT32_MAX) (hfull : p.mDataCapacity < p.mDataPos + len) :
    growData heap p len = continueWrite heap p (p.grownSize len) ∧ p.mDataSize + len ≤ p.grownSize len := by
  have hpos := h.pos
  have hsize := h.size
  have hcapacity := h.capacity
  have hmax : INT32_MAX = 2 ^ 31 - 1 := rfl
  have hnew : ¬ (p.mDataSize + len) * 3 / 2 ≤ p.mDataSize := by omega
  refine ⟨?_, by unfold grownSize; omega⟩
  unfold growData SIZE_MAX
  rw [if_neg (by omega), if_neg (by omega), if_neg (by omega)]
  simp only [hnew, if_false]
  rfl

theorem makeRoom_ok (h : p.Sound) (hroom : p.HasRoom heap len) :
    ∃ q, p.makeRoom heap len = (.noError, q) ∧ Moved p q ∧ p.mDataPos + len ≤ q.mDataCapacity := by
  have hlen := hroom.le h
  unfold makeRoom
  split_ifs with hfits
  · exact ⟨p, rfl, ⟨.refl h, rfl, rfl⟩, hfits⟩
  · obtain ⟨hle, halloc⟩ := hroom.resolve_left hfits
    have hsize := h.size
    have hpos := h.pos
    obtain ⟨hgrow, hlarger⟩ := @growData_eq p heap len h hlen (by omega)
    obtain ⟨block, hblock⟩ := Option.ne_none_iff_exists'.mp halloc
    have hlength := heap.alloc_length hblock
    rw [hgrow, continueWrite_grows h hle (.inr (by omega)), hblock]
    refine ⟨_, rfl, moved_moves h (by omega) (by omega), ?_⟩
    rw [moved_capacity (by omega)]
    omega

theorem makeRoom_fails (h : p.Sound) (hroom : ¬ p.HasRoom heap len) :
    p.makeRoom heap len = (.badValue, p) ∧ p.grownSize len > INT32_MAX ∨
      p.makeRoom heap len = (.noMemory, { p with mError := .noMemory }) ∧ p.grownSize len ≤ INT32_MAX := by
  rw [HasRoom, not_or, not_and_or] at hroom
  have hsize := h.size
  have hpos := h.pos
  rw [makeRoom, if_neg hroom.1]
  by_cases hlen : len ≤ INT32_MAX
  · obtain ⟨hgrow, hlarger⟩ := @growData_eq p heap len h hlen (by omega)
    rw [hgrow]
    by_cases hle : p.grownSize len ≤ INT32_MAX
    · rw [continueWrite_grows h hle (.inr (by omega)), not_not.mp (hroom.2.resolve_left (not_not.mpr hle))]
      exact .inr ⟨rfl, hle⟩
    · rw [continueWrite, if_pos (Nat.not_le.mp hle)]
      exact .inl ⟨rfl, Nat.not_le.mp hle⟩
  · refine .inl ⟨by rw [growData, if_pos (Nat.not_le.mp hlen)], ?_⟩
    unfold grownSize
    omega

end Growth

section Stores

def written (p : Parcel) (bs : Bytes) : Parcel :=
  { p with
    mData := p.mData.map (fun data => overlay 0 data p.mDataPos bs)
    mDataPos := p.mDataPos + bs.length
    mDataSize := max p.mDataSize (p.mDataPos + bs.length) }

theorem written_data (hroom : p.mDataPos + bs.length ≤ p.mDataCapacity) :
    (p.written bs).mData.getD [] = overlay 0 (p.mData.getD []) p.mDataPos bs := by
  unfold written
  cases hdata : p.mData with
  | some data => rfl
  | none =>
    rw [mDataCapacity, hdata, Option.getD_none, List.length_nil] at hroom
    rw [List.eq_nil_of_length_eq_zero (by omega : bs.length = 0), overlay_nil]
    rfl

theorem written_capacity (hroom : p.mDataPos + bs.length ≤ p.mDataCapacity) :
    (p.written bs).mDataCapacity = p.mDataCapacity := by
  rw [mDataCapacity, written_data hroom]
  by_cases hnil : bs = []
  · rw [hnil, overlay_nil]
    rfl
  · rw [overlay_length 0 _ _ hnil]
    exact Nat.max_eq_left hroom

theorem written_wrote (h : p.Sound) (hroom : p.mDataPos + bs.length ≤ p.mDataCapacity) :
    Wrote p bs (p.written bs) := by
  have hcapacity := written_capacity hroom
  have hsize := h.size
  refine ⟨⟨Nat.le_max_right _ _, ?_, hcapacity.trans_le h.capacity⟩, ?_, rfl, rfl, rfl⟩
  · rw [hcapacity]
    exact Nat.max_le.mpr ⟨hsize, hroom⟩
  · rw [content, written_data hroom]
    exact overlay_take h.pos hsize hroom

theorem store_finish (h : p.Sound) (hroom : p.mDataPos + bs.length ≤ p.mDataCapacity) :
    ((p.store p.mDataPos bs).map (fun q => q.finishWrite bs.length)) = .ok (.noError, p.written bs) := by
  have hcapacity := h.capacity
  rw [store, if_pos hroom]
  simp only [Except.map, finishWrite]
  rw [if_neg (by omega)]
  rfl

theorem Moved.wrote {r : Parcel} (h : Moved p q) (hwrote : Wrote q bs r) : Wrote p bs r := by
  refine ⟨hwrote.sound, ?_, ?_, hwrote.error.trans h.error, hwrote.objects.trans h.kept.objects⟩
  · rw [hwrote.content, h.kept.content, h.kept.pos]
  · rw [hwrote.pos, h.kept.pos]

theorem overlay_swap {file as bs : Bytes} (hend : pos + as.length + bs.length ≤ file.length) :
    overlay 0 (overlay 0 file (pos + as.length) bs) pos as = overlay 0 file pos (as ++ bs) := by
  by_cases has : as = []
  · rw [has, List.length_nil, Nat.add_zero, overlay_nil, List.nil_append]
  by_cases hbs : bs = []
  · rw [hbs, overlay_nil, List.append_nil]
  have hinner : overlay 0 file (pos + as.length) bs =
      file.take (pos + as.length) ++ (bs ++ file.drop (pos + as.length + bs.length)) := by
    rw [overlay_ne 0 file _ hbs, Nat.sub_eq_zero_of_le (by omega), List.replicate_zero, List.append_nil,
      List.append_assoc]
  have hfront : (file.take (pos + as.length)).length = pos + as.length := by
    rw [List.length_take]
    omega
  have hlength := overlay_length 0 file (pos + as.length) hbs
  rw [overlay_ne 0 _ pos has, hlength, overlay_ne 0 file pos (List.append_ne_nil_of_left_ne_nil has bs),
    Nat.sub_eq_zero_of_le (by omega), Nat.sub_eq_zero_of_le (by omega), hinner, List.drop_left' hfront,
    List.take_append_of_le_length (by omega), List.take_take, Nat.min_eq_left (by omega), List.length_append]
  simp only [List.replicate_zero, List.append_nil, List.append_assoc, Nat.add_assoc]

def padded (data : Bytes) : Bytes := data ++ padding data.length

@[simp] theorem padded_length (data : Bytes) : (padded data).length = padSize data.length := by
  have hrange := padSize_range data.length
  rw [padded, List.length_append, padding_length]
  omega

theorem store_nil (h : p.store pos [] = .ok q) : p = q := by
  unfold store at h
  split_ifs at h
  rw [← Except.ok.inj h]
  simp only [overlay_nil, Option.map_id']

theorem place_store (h : p.Sound) {data : Bytes} (hroom : p.mDataPos + padSize data.length ≤ p.mDataCapacity) :
    ∃ q, p.place data.length = .ok (p.mData.map (fun _ => p.mDataPos), q) ∧ q.mError = p.mError ∧
      q.store p.mDataPos data = .ok (p.written (padded data)) := by
  have hrange := padSize_range data.length
  have hcapacity := h.capacity
  have hpad : p.mDataPos + data.length + (padding data.length).length ≤ p.mDataCapacity := by
    rw [padding_length]
    omega
  have hplace : p.place data.length = .ok (p.mData.map (fun _ => p.mDataPos),
      { p with
        mData := p.mData.map (fun block => overlay 0 block (p.mDataPos + data.length) (padding data.length)),
        mDataPos := p.mDataPos + padSize data.length,
        mDataSize := max p.mDataSize (p.mDataPos + padSize data.length) }) := by
    rw [place, store, if_pos hpad]
    simp only [Except.map, Option.map_map, finishWrite]
    rw [if_neg (by omega)]
    rfl
  refine ⟨_, hplace, rfl, ?_⟩
  rw [written, padded_length]
  unfold store
  cases hdata : p.mData with
  | none =>
    rw [mDataCapacity, hdata, Option.getD_none, List.length_nil] at hroom
    rw [if_pos (by simp only [mDataCapacity, Option.map_none, Option.getD_none, List.length_nil]; omega)]
    rfl
  | some block =>
    have hblock : block.length = p.mDataCapacity := by rw [mDataCapacity, hdata, Option.getD_some]
    have hcleared : block.length ≤ (overlay 0 block (p.mDataPos + data.length) (padding data.length)).length := by
      by_cases hnil : padding data.length = []
      · rw [hnil, overlay_nil]
      · rw [overlay_length 0 block _ hnil]
        exact Nat.le_max_left _ _
    have hswap := @overlay_swap p.mDataPos block data (padding data.length) (by omega)
    rw [if_pos (by simp only [mDataCapacity, Option.map_some, Option.getD_some]; omega)]
    simp only [Option.map_some, hswap]
    rfl

end Stores

section Writes

variable {α : Type} [Packed α] {data : Bytes}

theorem writeAligned_ok (h : p.Sound) (val : α) (hroom : p.HasRoom heap (Packed.size α)) :
    ∃ q, p.writeAligned heap val = .ok (.noError, q) ∧ Wrote p (Packed.pack val) q := by
  obtain ⟨q, hmake, hmoved, hfits⟩ := makeRoom_ok h hroom
  have hpack : (Packed.pack val).length = Packed.size α := Packed.pack_length val
  rw [← hpack, ← hmoved.kept.pos] at hfits
  have hfinish := store_finish hmoved.kept.sound hfits
  rw [hpack] at hfinish
  refine ⟨q.written (Packed.pack val), ?_, hmoved.wrote (written_wrote hmoved.kept.sound hfits)⟩
  simp only [writeAligned, hmake, hfinish]

theorem writeAligned_fails (h : p.Sound) (val : α) (hroom : ¬ p.HasRoom heap (Packed.size α)) :
    ∃ err q, p.writeAligned heap val = .ok (err, q) ∧ err ≠ .noError ∧ Kept p q := by
  rcases makeRoom_fails h hroom with ⟨hmake, -⟩ | ⟨hmake, -⟩
  · exact ⟨.badValue, p, by rw [writeAligned, hmake], by decide, .refl h⟩
  · exact ⟨.noMemory, _, by rw [writeAligned, hmake], by decide, .failed h⟩

theorem writeUnpadded_ok (h : p.Sound) (hroom : p.HasRoom heap data.length) :
    ∃ q, p.writeUnpadded heap data = .ok (.noError, q) ∧ Wrote p data q := by
  obtain ⟨q, hmake, hmoved, hfits⟩ := makeRoom_ok h hroom
  rw [← hmoved.kept.pos] at hfits
  have hfinish := store_finish hmoved.kept.sound hfits
  refine ⟨q.written data, ?_, hmoved.wrote (written_wrote hmoved.kept.sound hfits)⟩
  rw [writeUnpadded, if_neg (Nat.not_lt.mpr (hroom.le h)), hmake]
  exact hfinish

theorem writeUnpadded_fails (h : p.Sound) (hroom : ¬ p.HasRoom heap data.length) :
    ∃ err q, p.writeUnpadded heap data = .ok (err, q) ∧ err ≠ .noError ∧ Kept p q := by
  unfold writeUnpadded
  split_ifs with hlarge
  · exact ⟨.badValue, p, rfl, by decide, .refl h⟩
  · rcases makeRoom_fails h hroom with ⟨hmake, -⟩ | ⟨hmake, -⟩
    · exact ⟨.badValue, p, by rw [hmake], by decide, .refl h⟩
    · exact ⟨.noMemory, _, by rw [hmake], by decide, .failed h⟩

theorem writeInplace_ok (h : p.Sound) (data : Bytes) (hroom : p.HasRoom heap (padSize data.length)) :
    ∃ q r d, p.writeInplace heap data.length = .ok (d, q) ∧
      (d = some p.mDataPos ∨ d = none ∧ data = [] ∧ p.mDataSize = 0) ∧ q.mError = p.mError ∧
      q.store p.mDataPos data = .ok r ∧ Wrote p (padded data) r ∧ (data = [] → Wrote p [] q) := by
  have hrange := padSize_range data.length
  have hle := hroom.le h
  obtain ⟨q, hmake, hmoved, hfits⟩ := makeRoom_ok h hroom
  rw [← hmoved.kept.pos] at hfits
  obtain ⟨r, hplace, herror, hstore⟩ := place_store hmoved.kept.sound hfits
  rw [← padded_length] at hfits
  have hwrote := hmoved.wrote (written_wrote hmoved.kept.sound hfits)
  refine ⟨r, q.written (padded data), q.mData.map (fun _ => q.mDataPos), ?_, ?_, herror.trans hmoved.error, ?_,
    hwrote, ?_⟩
  · rw [writeInplace, if_neg (by omega), hmake]
    exact hplace
  · rw [← hmoved.kept.pos]
    cases hdata : q.mData with
    | some block => exact .inl rfl
    | none =>
      have hsize := hmoved.kept.sound.size
      rw [hmoved.size, mDataCapacity, hdata, Option.getD_none] at hsize
      rw [mDataCapacity, hdata, Option.getD_none, List.length_nil, padded_length] at hfits
      exact .inr ⟨rfl, List.eq_nil_of_length_eq_zero (by omega), Nat.le_zero.mp hsize⟩
  · rw [← hmoved.kept.pos]
    exact hstore
  · rintro rfl
    rw [store_nil hstore]
    exact hwrote

theorem writeInplace_fails (h : p.Sound) (hroom : ¬ p.HasRoom heap (padSize len)) :
    ∃ q, p.writeInplace heap len = .ok (none, q) ∧ Kept p q ∧
      q.mError = if INT32_MAX < len ∨ INT32_MAX < p.grownSize (padSize len) then p.mError else .noMemory := by
  unfold writeInplace
  by_cases hlarge : len > INT32_MAX
  · exact ⟨p, by rw [if_pos hlarge], .refl h, by rw [if_pos (.inl hlarge)]⟩
  · rw [if_neg hlarge]
    rcases makeRoom_fails h hroom with ⟨hmake, hgrown⟩ | ⟨hmake, hgrown⟩
    · exact ⟨p, by rw [hmake], .refl h, by rw [if_pos (.inr hgrown)]⟩
    · refine ⟨_, by rw [hmake], .failed h, ?_⟩
      rw [if_neg (not_or.mpr ⟨hlarge, Nat.not_lt.mpr hgrown⟩)]

theorem write_ok (h : p.Sound) (hroom : p.HasRoom heap (padSize data.length)) :
    ∃ err q, p.write heap data = .ok (err, q) ∧ Wrote p (padded data) q ∧
      (err = .noError ∨ data = [] ∧ err = p.mError) := by
  have hrange := padSize_range data.length
  have hle := hroom.le h
  obtain ⟨q, r, d, hplace, hd, hqerror, hstore, hwrote, hnil⟩ := writeInplace_ok h data hroom
  unfold write
  rw [if_neg (by omega), hplace]
  rcases hd with rfl | ⟨rfl, rfl, -⟩
  · simp only [hstore]
    exact ⟨.noError, r, rfl, hwrote, .inl rfl⟩
  · exact ⟨q.mError, q, rfl, hnil rfl, .inr ⟨rfl, hqerror⟩⟩

theorem write_fails (h : p.Sound) (hroom : ¬ p.HasRoom heap (padSize data.length)) :
    ∃ err q, p.write heap data = .ok (err, q) ∧ Kept p q ∧
      (err = .noError ↔ data.length ≤ INT32_MAX ∧ INT32_MAX < p.grownSize (padSize data.length) ∧
        p.mError = .noError) := by
  obtain ⟨q, hplace, hkept, herror⟩ := writeInplace_fails h hroom
  unfold write
  split_ifs with hlarge
  · exact ⟨.badValue, p, rfl, .refl h, by simp [Nat.not_le.mpr hlarge]⟩
  · rw [hplace]
    refine ⟨q.mError, q, rfl, hkept, ?_⟩
    rw [herror]
    split_ifs with hgrown
    · simp [Nat.not_lt.mp hlarge, hgrown.resolve_left hlarge]
    · simp [(not_or.mp hgrown).2]

end Writes

end Parcel

end BinderDownload.Wire
