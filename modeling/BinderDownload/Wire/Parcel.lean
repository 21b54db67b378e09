import BinderDownload.Lib.Overlay
import BinderDownload.Lib.Packed
import BinderDownload.Wire.Unicode

/-!
A parcel that its own process fills, or that came from the driver and is read. Sizes and positions are numbers: they
stay below 2 ^ 32, where no sum of them leaves a `size_t`.
-/

namespace BinderDownload.Wire

open Text

inductive StatusT
  | noError
  | badValue
  | noMemory
  | notEnoughData
  | permissionDenied
  | unexpectedNull
  | unknownError
  deriving DecidableEq, Repr

def INT32_MAX : ℕ := 2 ^ 31 - 1
def SIZE_MAX : ℕ := 2 ^ 64 - 1

/-- What `malloc` and `realloc` give for a size: no block, or one of that size with anything in it. -/
structure Heap where
  alloc : ℕ → Option Bytes
  alloc_length : ∀ {size block}, alloc size = some block → block.length = size

structure Parcel where
  mError : StatusT := .noError
  mData : Option Bytes := none
  mDataSize : ℕ := 0
  mDataPos : ℕ := 0
  mObjects : List ℕ := []
  mNextObjectHint : ℕ := 0
  mObjectsSorted : Bool := false

def flatBinderObjectSize : ℕ := 24

def padSize (s : ℕ) : ℕ := (s + 3) / 4 * 4

def padding (len : ℕ) : Bytes := List.replicate (padSize len - len) 0

namespace Parcel

def mDataCapacity (p : Parcel) : ℕ := (p.mData.getD []).length

def store (p : Parcel) (pos : ℕ) (bs : Bytes) : Except Fault Parcel :=
  if pos + bs.length ≤ p.mDataCapacity then .ok { p with mData := p.mData.map (fun data => overlay 0 data pos bs) }
  else .error .overrun

def load (p : Parcel) (pos len : ℕ) : Except Fault Bytes :=
  if pos + len ≤ p.mDataCapacity then .ok (((p.mData.getD []).drop pos).take len) else .error .overread

def dataSize (p : Parcel) : ℕ := if p.mDataSize > p.mDataPos then p.mDataSize else p.mDataPos

def dataAvail (p : Parcel) : Except Fault ℕ :=
  let result := p.dataSize - p.mDataPos
  if result > INT32_MAX then .error .fatal else .ok result

def setDataPosition (p : Parcel) (pos : ℕ) : Except Fault Parcel :=
  if pos > INT32_MAX then .error .fatal
  else .ok { p with mDataPos := pos, mNextObjectHint := 0, mObjectsSorted := false }

section Growth

def objectsWithin (p : Parcel) (desired : ℕ) : List ℕ :=
  if desired < p.mDataSize then
    if desired = 0 then [] else p.mObjects.rdropWhile (fun object => !decide (object < desired))
  else p.mObjects

def dropObjects (p : Parcel) (objects : List ℕ) : Parcel :=
  if objects.length < p.mObjects.length then
    { p with mObjects := objects, mNextObjectHint := 0, mObjectsSorted := false }
  else p

def continueWrite (heap : Heap) (p : Parcel) (desired : ℕ) : StatusT × Parcel :=
  if desired > INT32_MAX then (.badValue, p)
  else
    match p.mData with
    | some data =>
      let p := p.dropObjects (p.objectsWithin desired)
      if desired > data.length then
        match heap.alloc desired with
        | some block => (.noError, { p with mData := some (overlay 0 block 0 data) })
        | none => (.noMemory, { p with mError := .noMemory })
      else (.noError, { p with mDataSize := min p.mDataSize desired, mDataPos := min p.mDataPos desired })
    | none =>
      match heap.alloc desired with
      | some block => (.noError, { p with mData := some block, mDataSize := 0, mDataPos := 0 })
      | none => (.noMemory, { p with mError := .noMemory })

def growData (heap : Heap) (p : Parcel) (len : ℕ) : StatusT × Parcel :=
  if len > INT32_MAX then (.badValue, p)
  else if len > SIZE_MAX - p.mDataSize then (.noMemory, p)
  else if p.mDataSize + len > SIZE_MAX / 3 then (.noMemory, p)
  else
    let newSize := ((p.mDataSize + len) * 3) / 2
    if newSize ≤ p.mDataSize then (.noMemory, p) else continueWrite heap p (max newSize 128)

def setDataSize (heap : Heap) (p : Parcel) (size : ℕ) : StatusT × Parcel :=
  if size > INT32_MAX then (.badValue, p)
  else
    match continueWrite heap p size with
    | (.noError, p) => (.noError, { p with mDataSize := size })
    | (err, p) => (err, p)

def setDataCapacity (heap : Heap) (p : Parcel) (size : ℕ) : StatusT × Parcel :=
  if size > INT32_MAX then (.badValue, p)
  else if size > p.mDataCapacity then continueWrite heap p size
  else (.noError, p)

end Growth

section Writes

def finishWrite (p : Parcel) (len : ℕ) : StatusT × Parcel :=
  if len > INT32_MAX then (.badValue, p)
  else (.noError, { p with mDataPos := p.mDataPos + len, mDataSize := max p.mDataSize (p.mDataPos + len) })

def makeRoom (heap : Heap) (p : Parcel) (len : ℕ) : StatusT × Parcel :=
  if p.mDataPos + len ≤ p.mDataCapacity then (.noError, p) else growData heap p len

def writeUnpadded (heap : Heap) (p : Parcel) (data : Bytes) : Except Fault (StatusT × Parcel) :=
  if data.length > INT32_MAX then .ok (.badValue, p)
  else
    match p.makeRoom heap data.length with
    | (.noError, p) => (p.store p.mDataPos data).map (fun p => p.finishWrite data.length)
    | (err, p) => .ok (err, p)

def writeAligned {α : Type} [Packed α] (heap : Heap) (p : Parcel) (val : α) : Except Fault (StatusT × Parcel) :=
  match p.makeRoom heap (Packed.size α) with
  | (.noError, p) => (p.store p.mDataPos (Packed.pack val)).map (fun p => p.finishWrite (Packed.size α))
  | (err, p) => .ok (err, p)

/-- The place for `len` bytes, with the padding behind them cleared. There is no pointer to a place in no block. -/
def place (p : Parcel) (len : ℕ) : Except Fault (Option ℕ × Parcel) :=
  (p.store (p.mDataPos + len) (padding len)).map (fun q =>
    (q.mData.map (fun _ => p.mDataPos), (q.finishWrite (padSize len)).2))

def writeInplace (heap : Heap) (p : Parcel) (len : ℕ) : Except Fault (Option ℕ × Parcel) :=
  if len > INT32_MAX then .ok (none, p)
  else
    match p.makeRoom heap (padSize len) with
    | (.noError, p) => p.place len
    | (_, p) => .ok (none, p)

def write (heap : Heap) (p : Parcel) (data : Bytes) : Except Fault (StatusT × Parcel) :=
  if data.length > INT32_MAX then .ok (.badValue, p)
  else
    match p.writeInplace heap data.length with
    | .ok (some d, p) => (p.store d data).map (fun p => (.noError, p))
    | .ok (none, p) => .ok (p.mError, p)
    | .error fault => .error fault

end Writes

section Reads

/-- The objects from the hint on that begin before `upperBound`, or nothing when one of them ends behind `pos`. -/
def passObjects (pos upperBound : ℕ) : List ℕ → Option ℕ
  | [] => some 0
  | object :: objects =>
    if upperBound > object then
      if pos < object + flatBinderObjectSize then none
      else (passObjects pos upperBound objects).map (fun passed => passed + 1)
    else some 0

def checkObjects (p : Parcel) (upperBound : ℕ) : StatusT × Parcel :=
  match passObjects p.mDataPos upperBound (p.mObjects.drop p.mNextObjectHint) with
  | some passed => (.noError, { p with mNextObjectHint := p.mNextObjectHint + passed })
  | none => (.permissionDenied, p)

def isSorted (objects : List ℕ) : Bool := (objects.zip objects.tail).all (fun pair => decide (pair.1 ≤ pair.2))

def sortObjects (p : Parcel) : Parcel :=
  if p.mObjectsSorted || decide (p.mObjects.length ≤ 1) then p
  else if isSorted p.mObjects then { p with mObjectsSorted := true }
  else { p with mObjects := p.mObjects.insertionSort (· ≤ ·), mNextObjectHint := 0, mObjectsSorted := true }

def validateReadData (p : Parcel) (upperBound : ℕ) : StatusT × Parcel := p.sortObjects.checkObjects upperBound

/-- The bytes of a read of `len` bytes that takes `step` bytes of the parcel. -/
def take (p : Parcel) (len step : ℕ) : Except Fault (Except StatusT Bytes × Parcel) :=
  if p.mDataPos + step ≤ p.mDataSize then
    let checked := if p.mObjects.length > 0 then p.validateReadData (p.mDataPos + step) else (.noError, p)
    match checked with
    | (.noError, p) => (p.load p.mDataPos len).map (fun data => (.ok data, { p with mDataPos := p.mDataPos + step }))
    | (err, p) => .ok (.error err, { p with mDataPos := p.mDataPos + step })
  else .ok (.error .notEnoughData, p)

def readAligned (α : Type) [Packed α] (p : Parcel) : Except Fault (Except StatusT α × Parcel) :=
  (p.take (Packed.size α) (Packed.size α)).map (fun r => (r.1.map Packed.unpack, r.2))

def readAlignedOrZero (α : Type) [Packed α] (p : Parcel) : Except Fault (α × Parcel) :=
  (p.readAligned α).map (fun r => (match r.1 with | .ok val => val | .error _ => Packed.ofBits 0, r.2))

def read (p : Parcel) (len : ℕ) : Except Fault (Except StatusT Bytes × Parcel) :=
  if len > INT32_MAX then .ok (.error .badValue, p) else p.take len (padSize len)

def readInplace (p : Parcel) (len : ℕ) : Except Fault (Option Bytes × Parcel) :=
  if len > INT32_MAX then .ok (none, p)
  else (p.take len (padSize len)).map (fun r => (p.mData.bind (fun _ => r.1.toOption), r.2))

def seekForward (objects : List ℕ) (pos opos : ℕ) : ℕ :=
  opos + ((objects.drop opos).dropLast.takeWhile (fun object => decide (object < pos))).length

def seekBack (objects : List ℕ) (pos : ℕ) : ℕ → ℕ
  | 0 => 0
  | opos + 1 => if objects.getD (opos + 1) 0 > pos then seekBack objects pos opos else opos + 1

def findObject (p : Parcel) (pos : ℕ) : Option ℕ :=
  if p.mObjects.length > 0 then
    let opos := if p.mNextObjectHint < p.mObjects.length then seekForward p.mObjects pos p.mNextObjectHint
      else p.mObjects.length - 1
    if p.mObjects.getD opos 0 = pos then some opos
    else
      let opos := seekBack p.mObjects pos opos
      if p.mObjects.getD opos 0 = pos then some opos else none
  else none

def isNullObject (object : Bytes) : Bool := (object.drop 8).all (fun b => b == 0)

def readObject (p : Parcel) (nullMetaData : Bool) : Except Fault (Option Bytes × Parcel) := do
  let pos := p.mDataPos
  if pos + flatBinderObjectSize ≤ p.mDataSize then
    let object ← p.load pos flatBinderObjectSize
    let p := { p with mDataPos := pos + flatBinderObjectSize }
    if !nullMetaData && isNullObject object then
      return (some object, p)
    match p.findObject pos with
    | some opos => return (some object, { p with mNextObjectHint := opos + 1 })
    | none => return (none, p)
  return (none, p)

end Reads

end Parcel

end BinderDownload.Wire
