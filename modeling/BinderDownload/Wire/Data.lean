import BinderDownload.Wire.Parcel

/-!
The typed reads and writes of a parcel. `writeData` and `readData` go by the type of the value, which a `Shape` stands
for.
-/

namespace BinderDownload.Wire

open Text

abbrev Writing := Except Fault (StatusT × Parcel)

abbrev Reading (α : Type) := Except Fault (Except StatusT α × Parcel)

def Writing.next (r : Writing) (rest : Parcel → Writing) : Writing :=
  match r with
  | .ok (.noError, p) => rest p
  | other => other

def Reading.next {α β : Type} (r : Reading α) (rest : α → Parcel → Reading β) : Reading β :=
  match r with
  | .ok (.ok a, p) => rest a p
  | .ok (.error err, p) => .ok (.error err, p)
  | .error fault => .error fault

def Reading.map {α β : Type} (r : Reading α) (f : α → β) : Reading β := r.next (fun a p => .ok (.ok (f a), p))

namespace Parcel

variable (heap : Heap) (p : Parcel)

section Writes

def writeInt32 (val : Int32) : Writing := p.writeAligned heap val

def writeBool (val : Bool) : Writing := p.writeInt32 heap (if val then 1 else 0)

def writeChar (val : UInt16) : Writing := p.writeInt32 heap (Int32.ofNat val.toNat)

def writeByte (val : Int8) : Writing := p.writeInt32 heap val.toInt32

def fill (r : Except Fault (Option ℕ × Parcel)) (data : Except Fault Bytes) (missing : Parcel → StatusT) : Writing :=
  match r with
  | .ok (some d, p) => data.bind (fun data => (p.store d data).map (fun p => (.noError, p)))
  | .ok (none, p) => .ok (missing p, p)
  | .error fault => .error fault

def writeString16 (str : List UInt16) : Writing :=
  (p.writeInt32 heap (Int32.ofNat str.length)).next (fun p =>
    fill (p.writeInplace heap (str.length * 2 + 2)) (.ok (Packed.packAll (str ++ [0]))) mError)

def writeUtf8AsUtf16 (str : Bytes) : Writing :=
  match utf8ToUtf16Length str with
  | .error fault => .error fault
  | .ok none => .ok (.badValue, p)
  | .ok (some utf16Len) =>
    if utf16Len > INT32_MAX then .ok (.badValue, p)
    else
      (p.writeInt32 heap (Int32.ofNat utf16Len)).next (fun p =>
        fill (p.writeInplace heap ((utf16Len + 1) * 2)) ((utf8ToUtf16 str (utf16Len + 1)).map Packed.packAll)
          (fun _ => .noMemory))

def writeEach {α : Type} (write : α → Parcel → Writing) : List α → Parcel → Writing
  | [], p => .ok (.noError, p)
  | a :: as, p => (write a p).next (writeEach write as)

/-- Whether the size was written is not asked. -/
def writeVector {α : Type} (c : List α) (elements : Parcel → Writing) : Writing :=
  if c.length > INT32_MAX then .ok (.badValue, p)
  else (p.writeInt32 heap (Int32.ofNat c.length)).bind (fun r => elements r.2)

def writeArray {α : Type} [Packed α] (c : List α) : Writing :=
  if c.length > SIZE_MAX / Packed.size α then .ok (.badValue, p) else p.write heap (Packed.packAll c)

def writeWords (c : List Int32) : Writing :=
  fill (p.writeInplace heap (c.length * 4)) (.ok (Packed.packAll c)) (fun _ => .badValue)

end Writes

section Reads

def readInt32 : Reading Int32 := p.readAligned Int32

def readBool : Reading Bool := p.readInt32.map (fun tmp => tmp != 0)

def readChar : Reading UInt16 := p.readInt32.map (fun tmp => UInt16.ofInt tmp.toInt)

def readByte : Reading Int8 := p.readInt32.map Int32.toInt8

/-- The code units before the terminator. A size that cannot be read counts as 0. -/
def readString16Inplace : Except Fault (Option (List UInt16) × Parcel) := do
  let (size, p) ← p.readAlignedOrZero Int32
  if 0 ≤ size.toInt ∧ size.toInt < INT32_MAX then
    let size := size.toInt.toNat
    let (str, p) ← p.readInplace ((size + 1) * 2)
    match str with
    | some str =>
      let units := Packed.unpackAll UInt16 (size + 1) str
      if units.getLast? = some 0 then
        return (some (units.take size), p)
      else
        return (none, p)
    | none => return (none, p)
  else
    return (none, p)

def readString16 : Reading (List UInt16) :=
  (p.readString16Inplace).map (fun r => (match r.1 with | some str => .ok str | none => .error .unexpectedNull, r.2))

def readUtf8FromUtf16 : Reading Bytes :=
  match p.readString16Inplace with
  | .error fault => .error fault
  | .ok (none, p) => .ok (.error .unexpectedNull, p)
  | .ok (some src, p) =>
    if src.isEmpty then .ok (.ok [], p)
    else
      match utf16ToUtf8Length src with
      | none => .ok (.error .badValue, p)
      | some utf8Size => (utf16ToUtf8 src (utf8Size + 1)).map (fun str => (.ok str, p))

def readEach {α : Type} (read : Parcel → Reading α) : ℕ → Parcel → Reading (List α)
  | 0, p => .ok (.ok [], p)
  | count + 1, p => (read p).next (fun a p => (readEach read count p).map (fun as => a :: as))

def readVector {α : Type} (elements : ℕ → Parcel → Reading (List α)) : Reading (List α) :=
  (p.readInt32).next (fun size p =>
    if size.toInt < 0 then .ok (.error .unexpectedNull, p)
    else
      match p.dataAvail with
      | .error fault => .error fault
      | .ok availableBytes =>
        if size.toInt.toNat > availableBytes then .ok (.error .badValue, p) else elements size.toInt.toNat p)

def readArray (α : Type) [Packed α] (size : ℕ) (p : Parcel) : Reading (List α) :=
  (p.readInplace (size * Packed.size α)).map (fun r =>
    (match r.1 with | some data => .ok (Packed.unpackAll α size data) | none => .error .badValue, r.2))

/-- -1 stands for no value; anything else is read again, as the value. -/
def readNullable {α : Type} (read : Parcel → Reading α) : Reading (Option α) :=
  p.readInt32.next (fun peek q =>
    if peek = -1 then .ok (.ok none, q)
    else (q.setDataPosition p.mDataPos).bind (fun q => (read q).map some))

end Reads

end Parcel

inductive Kind
  | int8
  | uint8
  | int32
  | uint32
  | int64
  | uint64
  deriving DecidableEq

def Kind.Value : Kind → Type
  | .int8 => Int8
  | .uint8 => UInt8
  | .int32 => Int32
  | .uint32 => UInt32
  | .int64 => Int64
  | .uint64 => UInt64

instance : (k : Kind) → Packed k.Value
  | .int8 => inferInstanceAs (Packed Int8)
  | .uint8 => inferInstanceAs (Packed UInt8)
  | .int32 => inferInstanceAs (Packed Int32)
  | .uint32 => inferInstanceAs (Packed UInt32)
  | .int64 => inferInstanceAs (Packed Int64)
  | .uint64 => inferInstanceAs (Packed UInt64)

inductive Shape
  | packed (k : Kind)
  | bool
  | char16
  | string16
  | utf8
  | vector (s : Shape)
  | nullableString16
  | nullableUtf8
  | nullableVector (s : Shape)
  deriving DecidableEq

def Shape.Value : Shape → Type
  | .packed k => k.Value
  | .bool => Bool
  | .char16 => UInt16
  | .string16 => List UInt16
  | .utf8 => Bytes
  | .vector s => List s.Value
  | .nullableString16 => Option (List UInt16)
  | .nullableUtf8 => Option Bytes
  | .nullableVector s => Option (List s.Value)

def boolWord (val : Bool) : Int32 := if val then 1 else 0

def charWord (val : UInt16) : Int32 := Int32.ofNat val.toNat

namespace Parcel

variable (heap : Heap)

def writeElements : (s : Shape) → (s.Value → Parcel → Writing) → List s.Value → Parcel → Writing
  | .packed k, _, c, p => p.writeArray (α := k.Value) heap c
  | .bool, _, c, p => p.writeWords heap (c.map boolWord)
  | .char16, _, c, p => p.writeWords heap (c.map charWord)
  | _, write, c, p => writeEach write c p

def writeNullable {α : Type} (write : α → Parcel → Writing) : Option α → Parcel → Writing
  | none, p => p.writeInt32 heap (-1)
  | some a, p => write a p

def writeKind : (k : Kind) → k.Value → Parcel → Writing
  | .int8, val, p => p.writeByte heap val
  | .uint8, val, p => p.writeByte heap (UInt8.toInt8 val)
  | .int32, val, p => p.writeAligned (α := Int32) heap val
  | .uint32, val, p => p.writeAligned (α := UInt32) heap val
  | .int64, val, p => p.writeAligned (α := Int64) heap val
  | .uint64, val, p => p.writeAligned (α := UInt64) heap val

def writeData : (s : Shape) → s.Value → Parcel → Writing
  | .packed k, val, p => writeKind heap k val p
  | .bool, val, p => p.writeBool heap val
  | .char16, val, p => p.writeChar heap val
  | .string16, val, p => p.writeString16 heap val
  | .utf8, val, p => p.writeUtf8AsUtf16 heap val
  | .vector s, c, p => p.writeVector heap c (writeElements heap s (writeData s) c)
  | .nullableString16, val, p => writeNullable heap (fun val p => p.writeString16 heap val) val p
  | .nullableUtf8, val, p => writeNullable heap (fun val p => p.writeUtf8AsUtf16 heap val) val p
  | .nullableVector s, val, p =>
    writeNullable heap (fun c p => p.writeVector heap c (writeElements heap s (writeData s) c)) val p

def readElements : (s : Shape) → (Parcel → Reading s.Value) → ℕ → Parcel → Reading (List s.Value)
  | .packed k, _, size, p => p.readArray k.Value size
  | .bool, _, size, p => (p.readArray Int32 size).map (fun c => c.map (fun word => word != 0))
  | .char16, _, size, p => (p.readArray Int32 size).map (fun c => c.map (fun word => UInt16.ofInt word.toInt))
  | _, read, size, p => readEach read size p

def readKind : (k : Kind) → Parcel → Reading k.Value
  | .int8, p => p.readByte
  | .uint8, p => p.readByte.map Int8.toUInt8
  | .int32, p => p.readAligned Int32
  | .uint32, p => p.readAligned UInt32
  | .int64, p => p.readAligned Int64
  | .uint64, p => p.readAligned UInt64

def readData : (s : Shape) → Parcel → Reading s.Value
  | .packed k, p => readKind k p
  | .bool, p => p.readBool
  | .char16, p => p.readChar
  | .string16, p => p.readString16
  | .utf8, p => p.readUtf8FromUtf16
  | .vector s, p => p.readVector (readElements s (readData s))
  | .nullableString16, p => p.readNullable readString16
  | .nullableUtf8, p => p.readNullable readUtf8FromUtf16
  | .nullableVector s, p => p.readNullable (fun p => p.readVector (readElements s (readData s)))

end Parcel

end BinderDownload.Wire
