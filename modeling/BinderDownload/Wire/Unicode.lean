import BinderDownload.Lib.Text

namespace BinderDownload.Wire

open Text

/-- What a function may do besides returning: reach behind its source or its destination, or abort. -/
inductive Fault
  | overread
  | overrun
  | fatal
  deriving DecidableEq, Repr

def SSIZE_MAX : ℕ := 2 ^ 63 - 1

def kByteMask : ℕ := 0xBF
def kByteMark : ℕ := 0x80

def kUnicodeSurrogateStart : ℕ := 0xD800
def kUnicodeSurrogateEnd : ℕ := 0xDFFF
def kUnicodeMaxCodepoint : ℕ := 0x10FFFF

def kFirstByteMark : ℕ → ℕ
  | 2 => 0xC0
  | 3 => 0xE0
  | 4 => 0xF0
  | _ => 0x00

def utf32CodepointUtf8Length (srcChar : ℕ) : ℕ :=
  if srcChar < 0x80 then 1
  else if srcChar < 0x800 then 2
  else if srcChar < 0x10000 then
    if srcChar < kUnicodeSurrogateStart ∨ srcChar > kUnicodeSurrogateEnd then 3 else 0
  else if srcChar ≤ kUnicodeMaxCodepoint then 4
  else 0

def utf32CodepointToUtf8From (bytes : ℕ) : ℕ → ℕ → Bytes → Bytes
  | 0, _, dst => dst
  | 1, srcChar, dst => UInt8.ofNat (srcChar ||| kFirstByteMark bytes) :: dst
  | left + 2, srcChar, dst =>
    utf32CodepointToUtf8From bytes (left + 1) (srcChar >>> 6)
      (UInt8.ofNat ((srcChar ||| kByteMark) &&& kByteMask) :: dst)

def utf32CodepointToUtf8 (srcChar bytes : ℕ) : Bytes := utf32CodepointToUtf8From bytes bytes srcChar []

def isHighSurrogate (unit : UInt16) : Bool := unit.toNat &&& 0xFC00 == 0xD800

def isLowSurrogate (unit : UInt16) : Bool := unit.toNat &&& 0xFC00 == 0xDC00

def surrogatePair (high low : UInt16) : ℕ :=
  (((high.toNat - 0xD800) <<< 10) ||| (low.toNat - 0xDC00)) + 0x10000

/-- One turn of `utf16_to_utf8`: the destination must have room for the character. -/
def storeUtf8 (utf32 room : ℕ) (rest : ℕ → Except Fault Bytes) : Except Fault Bytes :=
  let len := utf32CodepointUtf8Length utf32
  if room < len then .error .fatal
  else (rest (room - len)).map (fun s => utf32CodepointToUtf8 utf32 len ++ s)

def utf16ToUtf8 : List UInt16 → ℕ → Except Fault Bytes
  | [], room => if room < 1 then .error .fatal else .ok []
  | [unit], room => storeUtf8 unit.toNat room (utf16ToUtf8 [])
  | unit :: next :: src, room =>
    if isHighSurrogate unit && isLowSurrogate next then storeUtf8 (surrogatePair unit next) room (utf16ToUtf8 src)
    else storeUtf8 unit.toNat room (utf16ToUtf8 (next :: src))

/-- `none` stands for -1, when `ret` outgrows what can be returned. -/
def addLength (charLen ret : ℕ) (rest : ℕ → Option ℕ) : Option ℕ :=
  if SSIZE_MAX - charLen < ret then none else rest (ret + charLen)

def utf16ToUtf8LengthFrom : List UInt16 → ℕ → Option ℕ
  | [], ret => some ret
  | [unit], ret => addLength (utf32CodepointUtf8Length unit.toNat) ret (utf16ToUtf8LengthFrom [])
  | unit :: next :: src, ret =>
    if isHighSurrogate unit && isLowSurrogate next then addLength 4 ret (utf16ToUtf8LengthFrom src)
    else addLength (utf32CodepointUtf8Length unit.toNat) ret (utf16ToUtf8LengthFrom (next :: src))

def utf16ToUtf8Length (src : List UInt16) : Option ℕ :=
  if src.isEmpty then none else utf16ToUtf8LengthFrom src 0

def utf8CodepointLen (ch : UInt8) : ℕ := ((0xe5000000 >>> ((ch.toNat >>> 3) &&& 0x1e)) &&& 3) + 1

def utf8ShiftAndMask (codePoint : ℕ) (byte : UInt8) : ℕ := (codePoint <<< 6) ||| (0x3F &&& byte.toNat)

def utf8ToUtf32Codepoint : Bytes → ℕ → Except Fault ℕ
  | a :: _, 1 => .ok a.toNat
  | a :: b :: _, 2 => .ok (utf8ShiftAndMask (a.toNat &&& 0x1f) b)
  | a :: b :: c :: _, 3 => .ok (utf8ShiftAndMask (utf8ShiftAndMask (a.toNat &&& 0x0f) b) c)
  | a :: b :: c :: d :: _, 4 =>
    .ok (utf8ShiftAndMask (utf8ShiftAndMask (utf8ShiftAndMask (a.toNat &&& 0x07) b) c) d)
  | _, length => if length = 0 ∨ 4 < length then .ok 0xffff else .error .overread

theorem drop_codepoint (ch : UInt8) (s : Bytes) :
    ((ch :: s).drop (utf8CodepointLen ch)).length < (ch :: s).length := by
  simp only [List.length_drop, List.length_cons, utf8CodepointLen]
  omega

/-- `.ok none` stands for -1: the last character is cut short. -/
def utf8ToUtf16Length (u8cur : Bytes) : Except Fault (Option ℕ) :=
  match u8cur with
  | [] => .ok (some 0)
  | ch :: s => do
    if (ch :: s).length < utf8CodepointLen ch then
      return none
    let codepoint ← utf8ToUtf32Codepoint (ch :: s) (utf8CodepointLen ch)
    let rest ← utf8ToUtf16Length ((ch :: s).drop (utf8CodepointLen ch))
    return rest.map (fun measured => (if codepoint > 0xFFFF then 2 else 1) + measured)
termination_by u8cur.length
decreasing_by exact drop_codepoint ch s

/-- The code units up to the end that is returned: where the room ends between the two of a pair, the first is given
back. -/
def utf8ToUtf16From (u8cur : Bytes) (room : ℕ) : Except Fault (List UInt16) :=
  match u8cur, room with
  | [], _ => .ok []
  | _ :: _, 0 => .ok []
  | ch :: s, room + 1 => do
    let codepoint ← utf8ToUtf32Codepoint (ch :: s) (utf8CodepointLen ch)
    if codepoint ≤ 0xFFFF then
      let rest ← utf8ToUtf16From ((ch :: s).drop (utf8CodepointLen ch)) room
      return UInt16.ofNat codepoint :: rest
    else
      match room with
      | 0 => return []
      | room + 1 =>
        let rest ← utf8ToUtf16From ((ch :: s).drop (utf8CodepointLen ch)) room
        return UInt16.ofNat (((codepoint - 0x10000) >>> 10) + 0xD800) ::
          UInt16.ofNat (((codepoint - 0x10000) &&& 0x3FF) + 0xDC00) :: rest
termination_by u8cur.length
decreasing_by all_goals exact drop_codepoint ch s

def utf8ToUtf16NoNullTerminator (src : Bytes) (dstLen : ℕ) : Except Fault (List UInt16) :=
  if dstLen = 0 then .ok []
  else if dstLen > SSIZE_MAX then .error .fatal
  else utf8ToUtf16From src dstLen

def utf8ToUtf16 (u8str : Bytes) (u16len : ℕ) : Except Fault (List UInt16) :=
  if u16len = 0 ∨ u16len > SSIZE_MAX then .error .fatal
  else (utf8ToUtf16NoNullTerminator u8str (u16len - 1)).map (fun units => units ++ [0])

end BinderDownload.Wire
