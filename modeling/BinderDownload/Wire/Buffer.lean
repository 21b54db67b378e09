import BinderDownload.Wire.Reads

namespace BinderDownload.Wire

open Text

inductive Edit
  | writeInt32 (val : Int32)
  | writeInt64 (val : Int64)
  | writeUnpadded (data : Bytes)
  | write (data : Bytes)
  | setDataPosition (pos : ℕ)
  | setDataSize (size : ℕ)
  | setDataCapacity (size : ℕ)
  deriving DecidableEq

structure Tape where
  bytes : Bytes
  pos : ℕ

def Tape.put (tape : Tape) (data : Bytes) : Tape := ⟨overlay 0 tape.bytes tape.pos data, tape.pos + data.length⟩

inductive Tape.Edited (tape : Tape) : Edit → Tape → Prop
  | int32 (val : Int32) : Edited tape (.writeInt32 val) (tape.put (Packed.pack val))
  | int64 (val : Int64) : Edited tape (.writeInt64 val) (tape.put (Packed.pack val))
  | unpadded (data : Bytes) : Edited tape (.writeUnpadded data) (tape.put data)
  | padded (data : Bytes) : Edited tape (.write data) (tape.put (Parcel.padded data))
  | sought (pos : ℕ) : Edited tape (.setDataPosition pos) ⟨tape.bytes, pos⟩
  | cut {size : ℕ} (h : size ≤ tape.bytes.length) :
      Edited tape (.setDataSize size) ⟨tape.bytes.take size, min tape.pos size⟩
  | extended {size : ℕ} (rest : Bytes) (h : size = tape.bytes.length + rest.length) :
      Edited tape (.setDataSize size) ⟨tape.bytes ++ rest, tape.pos⟩
  | reserved (size : ℕ) : Edited tape (.setDataCapacity size) tape

/-- A call does its work and says so, or fails and changes nothing. Only `write` may say that it did what it did not:
for data that would take the parcel beyond its limit. -/
inductive Tape.Step (tape : Tape) : Edit → StatusT → Tape → Prop
  | done {e : Edit} {next : Tape} (h : tape.Edited e next) : Step tape e .noError next
  | failed {err : StatusT} (e : Edit) (h : err ≠ .noError) : Step tape e err tape
  | lost {data : Bytes} (h : INT32_MAX < (tape.bytes.length + padSize data.length) * 3 / 2) :
      Step tape (.write data) .noError tape

inductive Tape.Steps : Tape → List Edit → List StatusT → Tape → Prop
  | nil (tape : Tape) : Steps tape [] [] tape
  | cons {tape next last : Tape} {e : Edit} {err : StatusT} {es : List Edit} {errs : List StatusT}
      (h : tape.Step e err next) (hrest : Steps next es errs last) : Steps tape (e :: es) (err :: errs) last

namespace Parcel

variable {p q : Parcel} {heap : Heap} {e : Edit} {err : StatusT} {data : Bytes}

def edit (heap : Heap) (p : Parcel) : Edit → Except Fault (StatusT × Parcel)
  | .writeInt32 val => p.writeAligned heap val
  | .writeInt64 val => p.writeAligned heap val
  | .writeUnpadded data => p.writeUnpadded heap data
  | .write data => p.write heap data
  | .setDataPosition pos => (p.setDataPosition pos).map (fun q => (.noError, q))
  | .setDataSize size => .ok (p.setDataSize heap size)
  | .setDataCapacity size => .ok (p.setDataCapacity heap size)

def editAll (p : Parcel) : List (Heap × Edit) → Except Fault (List StatusT × Parcel)
  | [] => .ok ([], p)
  | (heap, e) :: edits =>
    match p.edit heap e with
    | .ok (err, q) => (q.editAll edits).map (fun r => (err :: r.1, r.2))
    | .error fault => .error fault

def Inside (p : Parcel) : List (Heap × Edit) → Prop
  | [] => True
  | (heap, e) :: edits =>
    (∀ pos, e = .setDataPosition pos → pos ≤ p.dataSize) ∧ ∀ err q, p.edit heap e = .ok (err, q) → q.Inside edits

def tape (p : Parcel) : Tape := ⟨p.content, p.mDataPos⟩

theorem Wrote.tape (h : Wrote p data q) : q.tape = p.tape.put data := by
  rw [Parcel.tape, h.content, h.pos]
  rfl

theorem Kept.tape (h : Kept p q) : q.tape = p.tape := by
  rw [Parcel.tape, h.content, h.pos]
  rfl

def Tells (heap : Heap) (p : Parcel) (e : Edit) : Prop :=
  ∃ err q, p.edit heap e = .ok (err, q) ∧ q.Sound ∧ p.tape.Step e err q.tape

theorem tells_written (hwrite : p.edit heap e = .ok (.noError, q)) (hwrote : Wrote p data q)
    (hedited : p.tape.Edited e (p.tape.put data)) : Tells heap p e :=
  ⟨.noError, q, hwrite, hwrote.sound, .done (hwrote.tape ▸ hedited)⟩

theorem tells_failed (hwrite : p.edit heap e = .ok (err, q)) (hkept : Kept p q) (herr : err ≠ .noError) :
    Tells heap p e :=
  ⟨err, q, hwrite, hkept.sound, hkept.tape ▸ .failed e herr⟩

theorem Wrote.nothing (h : Wrote p [] q) : q.tape = p.tape := by
  rw [h.tape, Tape.put, overlay_nil, List.length_nil, Nat.add_zero]

theorem tells_write (h : p.Sound) (data : Bytes) : Tells heap p (.write data) := by
  by_cases hroom : p.HasRoom heap (padSize data.length)
  · obtain ⟨err, q, hwrite, hwrote, htold⟩ := write_ok h hroom
    by_cases herr : err = .noError
    · subst herr
      exact tells_written hwrite hwrote (.padded data)
    · obtain ⟨rfl, -⟩ := htold.resolve_left herr
      refine ⟨err, q, hwrite, hwrote.sound, ?_⟩
      rw [Wrote.nothing hwrote]
      exact .failed _ herr
  · obtain ⟨err, q, hwrite, hkept, htold⟩ := write_fails h hroom
    by_cases herr : err = .noError
    · subst herr
      have hgrown := (htold.mp rfl).2.1
      have hmax : INT32_MAX = 2 ^ 31 - 1 := rfl
      have hlost : INT32_MAX < (p.content.length + padSize data.length) * 3 / 2 := by
        unfold grownSize at hgrown
        rw [h.content_length]
        omega
      refine ⟨.noError, q, hwrite, hkept.sound, ?_⟩
      rw [hkept.tape]
      exact .lost hlost
    · exact tells_failed hwrite hkept herr

theorem tells_aligned {α : Type} [Packed α] (h : p.Sound) (val : α)
    (hedit : p.edit heap e = p.writeAligned heap val) (hedited : p.tape.Edited e (p.tape.put (Packed.pack val))) :
    Tells heap p e := by
  by_cases hroom : p.HasRoom heap (Packed.size α)
  · obtain ⟨q, hwrite, hwrote⟩ := writeAligned_ok h val hroom
    exact tells_written (hedit.trans hwrite) hwrote hedited
  · obtain ⟨err, q, hwrite, herr, hkept⟩ := writeAligned_fails h val hroom
    exact tells_failed (hedit.trans hwrite) hkept herr

theorem tells_extended {size : ℕ} (hq : q.Sound) (hedit : p.setDataSize heap size =
    (.noError, { q with mDataSize := size })) (htape : q.tape = p.tape) (hsize : q.mDataSize ≤ size)
    (hroom : size ≤ q.mDataCapacity) : Tells heap p (.setDataSize size) := by
  have hpos := hq.pos
  have hlength := hq.content_length
  have hbytes : q.content = p.content := congrArg Tape.bytes htape
  have hcursor : q.mDataPos = p.mDataPos := congrArg Tape.pos htape
  refine ⟨.noError, _, congrArg Except.ok hedit, ⟨by simp only; omega, hroom, hq.capacity⟩, .done ?_⟩
  have hsplit : (q.mData.getD []).take size =
      p.tape.bytes ++ ((q.mData.getD []).drop q.mDataSize).take (size - q.mDataSize) := by
    rw [tape, ← hbytes, content, ← List.take_add, Nat.add_sub_cancel' hsize]
  show p.tape.Edited _ ⟨(q.mData.getD []).take size, q.mDataPos⟩
  rw [hsplit, hcursor]
  refine .extended _ ?_
  unfold mDataCapacity at hroom
  rw [tape, ← hbytes, hlength, List.length_take, List.length_drop]
  omega

theorem tells_setDataSize (h : p.Sound) (size : ℕ) : Tells heap p (.setDataSize size) := by
  by_cases hlarge : size > INT32_MAX
  · exact tells_failed (congrArg Except.ok (if_pos hlarge)) (.refl h) (by decide)
  have hle := Nat.not_lt.mp hlarge
  by_cases hgrow : p.mData = none ∨ p.mDataCapacity < size
  · have hcontinue := @continueWrite_grows p heap size h hle hgrow
    cases halloc : heap.alloc size with
    | none =>
      refine tells_failed ?_ (.failed h) (show StatusT.noMemory ≠ .noError by decide)
      simp only [edit, setDataSize, if_neg hlarge, hcontinue, halloc]
    | some block =>
      have hblock := heap.alloc_length halloc
      have hlarger : p.mDataCapacity ≤ block.length := by
        rcases hgrow with hnone | hless
        · rw [mDataCapacity, hnone]
          exact Nat.zero_le _
        · omega
      have hmoved := moved_moves h hlarger (by omega)
      have hcapacity := moved_capacity hlarger
      refine tells_extended hmoved.kept.sound ?_ hmoved.kept.tape ?_ (by omega)
      · simp only [setDataSize, if_neg hlarge, hcontinue, halloc]
      · rw [hmoved.size]
        exact h.size.trans (by omega)
  · rw [not_or, Nat.not_lt] at hgrow
    obtain ⟨q, hcontinue, hq, hcontent, hpos, hsize, -, hcapacity⟩ := @continueWrite_cuts p heap size h hgrow.1 hgrow.2
    have hedit : p.setDataSize heap size = (.noError, { q with mDataSize := size }) := by
      simp only [setDataSize, if_neg hlarge, hcontinue]
    by_cases hcut : size ≤ p.mDataSize
    · have hsame : { q with mDataSize := size } = q := by
        rw [Nat.min_eq_right hcut] at hsize
        rw [← hsize]
      refine ⟨.noError, q, by rw [edit, hedit, hsame], hq, .done ?_⟩
      have htape : q.tape = ⟨p.tape.bytes.take size, min p.tape.pos size⟩ := by
        rw [tape, hcontent, hpos]
        rfl
      rw [htape]
      exact .cut (hcut.trans_eq h.content_length.symm)
    · have hcursor := h.pos
      refine tells_extended hq hedit ?_ (by omega) (by omega)
      rw [tape, tape, hcontent, hpos, Nat.min_eq_left (by omega), List.take_of_length_le]
      rw [h.content_length]
      omega

theorem tells_setDataCapacity (h : p.Sound) (size : ℕ) : Tells heap p (.setDataCapacity size) := by
  have hsame : p.tape.Step (.setDataCapacity size) .noError p.tape := .done (.reserved size)
  simp only [Tells, edit, setDataCapacity]
  split_ifs with hlarge hgrow
  · exact ⟨_, p, rfl, h, .failed _ (by decide)⟩
  · rw [continueWrite_grows h (by omega) (.inr hgrow)]
    cases halloc : heap.alloc size with
    | none => exact ⟨_, _, rfl, (Kept.failed h).sound, (Kept.failed h).tape ▸ .failed _ (by decide)⟩
    | some block =>
      have hblock := heap.alloc_length halloc
      have hmoved := @moved_moves p block h (by omega) (by omega)
      exact ⟨_, _, rfl, hmoved.kept.sound, hmoved.kept.tape ▸ hsame⟩
  · exact ⟨_, p, rfl, h, hsame⟩

theorem edit_tells (h : p.Sound) (e : Edit) (hinside : ∀ pos, e = .setDataPosition pos → pos ≤ p.dataSize) :
    Tells heap p e := by
  cases e with
  | writeInt32 val => exact tells_aligned h val rfl (.int32 val)
  | writeInt64 val => exact tells_aligned h val rfl (.int64 val)
  | writeUnpadded data =>
    by_cases hroom : p.HasRoom heap data.length
    · obtain ⟨q, hwrite, hwrote⟩ := writeUnpadded_ok h hroom
      exact tells_written hwrite hwrote (.unpadded data)
    · obtain ⟨err, q, hwrite, herr, hkept⟩ := writeUnpadded_fails h hroom
      exact tells_failed hwrite hkept herr
  | write data => exact tells_write h data
  | setDataPosition pos =>
    have hpos := hinside pos rfl
    have hcursor := h.pos
    have hsize := h.size
    have hcapacity := h.capacity
    have hend : pos ≤ p.mDataSize := by
      unfold dataSize at hpos
      split_ifs at hpos <;> omega
    refine ⟨.noError, { p with mDataPos := pos, mNextObjectHint := 0, mObjectsSorted := false }, ?_,
      ⟨hend, hsize, hcapacity⟩, .done (.sought pos)⟩
    simp only [edit, setDataPosition]
    rw [if_neg (by omega)]
    rfl
  | setDataSize size => exact tells_setDataSize h size
  | setDataCapacity size => exact tells_setDataCapacity h size

theorem editAll_tape {edits : List (Heap × Edit)} (hinside : Inside {} edits) :
    ∃ errs q, editAll {} edits = .ok (errs, q) ∧ q.Sound ∧ Tape.Steps ⟨[], 0⟩ (edits.map Prod.snd) errs q.tape := by
  have hall {p : Parcel} (h : p.Sound) (hinside : Inside p edits) : ∃ errs q, editAll p edits = .ok (errs, q) ∧
      q.Sound ∧ Tape.Steps p.tape (edits.map Prod.snd) errs q.tape := by
    clear * - h hinside
    induction edits generalizing p with
    | nil => exact ⟨[], p, rfl, h, .nil _⟩
    | cons edit edits ih =>
      obtain ⟨heap, e⟩ := edit
      obtain ⟨err, q, hedit, hq, hstep⟩ := @edit_tells p heap h e hinside.1
      obtain ⟨errs, r, hrest, hr, hsteps⟩ := ih hq (hinside.2 err q hedit)
      refine ⟨err :: errs, r, ?_, hr, .cons hstep hsteps⟩
      rw [editAll, hedit]
      simp only [hrest]
      rfl
  exact hall empty_sound hinside

end Parcel

def Heap.ample : Heap := ⟨fun size => some (List.replicate size 0), fun h => by
  rw [← Option.some.inj h]
  exact List.length_replicate⟩

def Heap.exhausted : Heap := ⟨fun _ => none, fun h => by cases h⟩

theorem Parcel.editAll_tape_patched : ∃ errs q,
    editAll {} [(.ample, .writeInt64 1), (.exhausted, .setDataPosition 0), (.exhausted, .writeInt32 2)] =
      .ok (errs, q) ∧
      q.Sound ∧ Tape.Steps ⟨[], 0⟩ [.writeInt64 1, .setDataPosition 0, .writeInt32 2] errs q.tape := by
  refine editAll_tape ⟨fun pos h => absurd h (by simp), fun err q h => ?_⟩
  refine ⟨fun pos h => ?_, fun err q h => ⟨fun pos h => absurd h (by simp), fun _ _ _ => trivial⟩⟩
  obtain rfl := Edit.setDataPosition.inj h
  exact Nat.zero_le _

end BinderDownload.Wire
