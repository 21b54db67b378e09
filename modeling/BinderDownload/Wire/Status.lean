import BinderDownload.Wire.Untrusted

namespace BinderDownload.Wire

open Text

def StatusT.code : StatusT → Int32
  | .noError => 0
  | .badValue => -22
  | .noMemory => -12
  | .notEnoughData => -61
  | .permissionDenied => -1
  | .unexpectedNull => -2147483640
  | .unknownError => -2147483648

def EX_NONE : Int32 := 0
def EX_SERVICE_SPECIFIC : Int32 := -8
def EX_PARCELABLE : Int32 := -9
def EX_HAS_REPLY_HEADER : Int32 := -128
def EX_TRANSACTION_FAILED : Int32 := -129

def string16 (str : Bytes) : Except Fault (List UInt16) :=
  if str.isEmpty then .ok []
  else
    match utf8ToUtf16Length str with
    | .error fault => .error fault
    | .ok none => .ok []
    | .ok (some u16len) => (utf8ToUtf16 str (u16len + 1)).map (fun units => units.take u16len)

def string8 (str : List UInt16) : Except Fault Bytes :=
  if str.isEmpty then .ok []
  else
    match utf16ToUtf8Length str with
    | none => .ok []
    | some resultLen => utf16ToUtf8 str (resultLen + 1)

structure Status where
  mException : Int32 := EX_NONE
  mErrorCode : Int32 := 0
  mMessage : Bytes := []
  deriving DecidableEq

namespace Parcel

def skipHeader (p : Parcel) : Reading Unit :=
  match p.dataAvail with
  | .error fault => .error fault
  | .ok headerAvail =>
    p.readInt32.next (fun headerSize q =>
      if headerSize.toInt < 0 ∨ headerSize.toInt.toNat > headerAvail then .ok (.error .unknownError, q)
      else (q.setDataPosition (p.mDataPos + headerSize.toInt.toNat)).map (fun q => (.ok (), q)))

def skipRemoteStackTrace (p : Parcel) : Reading Unit :=
  p.readInt32.next (fun headerSize q =>
    if headerSize.toInt < 0 then .ok (.error .unknownError, q)
    else
      match q.dataAvail with
      | .error fault => .error fault
      | .ok avail =>
        if headerSize.toInt.toNat > avail then .ok (.error .unknownError, q)
        else (q.setDataPosition (q.mDataPos + headerSize.toInt.toNat)).map (fun q => (.ok (), q)))

end Parcel

namespace Status

def isOk (s : Status) : Bool := s.mException == EX_NONE

def setFromStatusT (status : StatusT) : Status :=
  ⟨if status = .noError then EX_NONE else EX_TRANSACTION_FAILED, status.code, []⟩

def writeRest (heap : Heap) (s : Status) (p : Parcel) : Writing :=
  if s.mException = EX_SERVICE_SPECIFIC then p.writeInt32 heap s.mErrorCode
  else if s.mException = EX_PARCELABLE then p.writeInt32 heap 0
  else .ok (.noError, p)

def writeFields (heap : Heap) (s : Status) (p : Parcel) : Writing :=
  (p.writeInt32 heap s.mException).next (fun p =>
    if s.mException = EX_NONE then .ok (.noError, p)
    else
      match string16 s.mMessage with
      | .error fault => .error fault
      | .ok message =>
        (p.writeString16 heap message).next (fun p => (p.writeInt32 heap 0).next (s.writeRest heap)))

def writeToParcel (heap : Heap) (s : Status) (p : Parcel) : Except Fault (Int32 × Parcel) :=
  if s.mException = EX_TRANSACTION_FAILED then .ok (s.mErrorCode, p)
  else (s.writeFields heap p).map (fun r => (r.1.code, r.2))

def readRest (s : Status) (p : Parcel) : Reading Status :=
  if s.mException = EX_SERVICE_SPECIFIC then p.readInt32.map (fun code => { s with mErrorCode := code })
  else if s.mException = EX_PARCELABLE then p.skipHeader.map (fun _ => s)
  else .ok (.ok s, p)

def readException (s : Status) (p : Parcel) : Reading Status :=
  if s.mException = EX_NONE then .ok (.ok s, p)
  else
    p.readString16.next (fun message p =>
      match string8 message with
      | .error fault => .error fault
      | .ok message => p.skipRemoteStackTrace.next (fun _ p => readRest { s with mMessage := message } p))

/-- Fat response headers are only used when there are no exceptions. -/
def readFields (s : Status) (p : Parcel) : Reading Status :=
  p.readInt32.next (fun ex p =>
    if ex = EX_HAS_REPLY_HEADER then p.skipHeader.next (fun _ p => readException { s with mException := EX_NONE } p)
    else readException { s with mException := ex } p)

def readFromParcel (s : Status) (p : Parcel) : Except Fault (StatusT × Status × Parcel) :=
  match s.readFields p with
  | .ok (.ok t, p) => .ok (.noError, t, p)
  | .ok (.error status, p) => .ok (status, setFromStatusT status, p)
  | .error fault => .error fault

variable {heap : Heap} {p q : Parcel} {s t : Status} {data : Bytes} {objects : List ℕ}

section Strings

theorem string16_units {str : Bytes} (hle : (utf16Of str).length ≤ INT32_MAX) : string16 str = .ok (utf16Of str) := by
  obtain ⟨measured, hmeasured, -⟩ := utf8ToUtf16Length_measures str
  unfold string16
  split_ifs with hempty
  · obtain rfl := List.isEmpty_iff.mp hempty
    rw [show utf16Of [] = utf16 [] from utf16Of_text []]
    rfl
  · cases measured with
    | none => simp only [hmeasured, utf16Of]
    | some u16len =>
      have hlength := (utf16Of_measured hmeasured).2
      have hunits := utf8ToUtf16_units hmeasured (hlength.symm.trans_le hle)
      simp only [hmeasured, hunits, Except.map]
      rw [List.take_left' hlength]

theorem string8_text {units : List UInt16} (hle : units.length ≤ INT32_MAX) :
    string8 units = .ok (utf8 (utf16Chars units)) := by
  unfold string8
  split_ifs with hempty
  · obtain rfl := List.isEmpty_iff.mp hempty
    rfl
  · obtain ⟨hmeasure, hread⟩ := utf16ToUtf8_measured (fun hnil => hempty (List.isEmpty_iff.mpr hnil)) hle
    simp only [hmeasure, hread]

theorem wireUnits_le {units : List UInt16} (h : (wireUnits units).length ≤ INT32_MAX) : units.length ≤ INT32_MAX := by
  have hpad := (padSize_range ((units.length + 1) * 2)).1
  rw [wireUnits_length] at h
  omega

end Strings

section RoundTrip

def wireRest (s : Status) : Bytes :=
  if s.mException = EX_SERVICE_SPECIFIC then Packed.pack s.mErrorCode
  else if s.mException = EX_PARCELABLE then Packed.pack (0 : Int32)
  else []

def wireException (s : Status) : Bytes :=
  if s.mException = EX_NONE then []
  else wireUnits (utf16Of s.mMessage) ++ (Packed.pack (0 : Int32) ++ s.wireRest)

def wireStatus (s : Status) : Bytes := Packed.pack s.mException ++ s.wireException

theorem writeRest_appends (hgives : Parcel.Gives heap) (s : Status) :
    Parcel.Appends 0 (s.writeRest heap) s.wireRest := by
  unfold writeRest wireRest
  split_ifs
  · exact Parcel.writeAligned_appends hgives s.mErrorCode
  · exact Parcel.writeAligned_appends hgives (0 : Int32)
  · exact Parcel.nothing_appends

theorem writeFields_appends (hgives : Parcel.Gives heap) (s : Status) :
    Parcel.Appends 0 (s.writeFields heap) s.wireStatus := by
  refine (Parcel.writeAligned_appends hgives s.mException).next ?_
  unfold wireException
  split_ifs with hnone
  · exact Parcel.nothing_appends
  · intro p hend hleast hfits
    have hunits := string16_units (wireUnits_le hfits.front.le)
    simp only [hunits]
    exact (Parcel.writeString16_appends hgives _).next
      ((Parcel.writeAligned_appends hgives (0 : Int32)).next (writeRest_appends hgives s)) p hend hleast hfits

section Reads

variable {as bs : Bytes} {α β : Type}

def Yields (r : Parcel → Reading α) (bs : Bytes) (a : α) : Prop :=
  ∀ p : Parcel, p.Plain → bs <+: p.ahead → ∃ q, r p = .ok (.ok a, q)

theorem Yields.after {r : Parcel → Reading α} {k : α → Parcel → Reading β} {a : α} {b : β}
    (h : Parcel.Reads r as a) (hnext : Yields (k a) bs b) : Yields (fun p => (r p).next k) (as ++ bs) b := by
  intro p hplain hbs
  obtain ⟨q, hr, hq⟩ := h p hplain ((List.prefix_append as bs).trans hbs)
  obtain ⟨u, hk⟩ := hnext q hq.plain (hq.ahead hbs)
  exact ⟨u, by simp only [hr, Reading.next, hk]⟩

theorem skipHeader_ok (h : p.Plain) {size : ℕ} (hbs : sizeWord size <+: p.ahead)
    (hle : size ≤ p.mDataSize - p.mDataPos) :
    ∃ q, p.skipHeader = .ok (.ok (), q) ∧ q.mDataPos = p.mDataPos + size := by
  have hpos := h.sound.pos
  have hsize := h.sound.size
  have hcapacity := h.sound.capacity
  obtain ⟨q, hread, -⟩ := Parcel.readAligned_reads (Int32.ofNat size) p h hbs
  have hcount := Parcel.toInt_sizeWord (show size ≤ INT32_MAX by omega)
  have hfits : ¬ ((size : ℤ) < 0 ∨ size > p.mDataSize - p.mDataPos) := by omega
  have hseek : ¬ p.mDataPos + size > INT32_MAX := by omega
  simp only at hread
  simp only [Parcel.skipHeader, h.dataAvail_eq, Parcel.readInt32, hread, Reading.next, hcount, Int.toNat_natCast,
    if_neg hfits, Parcel.setDataPosition, if_neg hseek, Except.map]
  exact ⟨_, rfl, rfl⟩

theorem skipRemoteStackTrace_reads : Parcel.Reads Parcel.skipRemoteStackTrace (Packed.pack (0 : Int32)) () := by
  intro p hplain hbs
  obtain ⟨q, hread, hq⟩ := Parcel.readAligned_reads (0 : Int32) p hplain hbs
  have hpos := hq.plain.sound.pos
  have hsize := hq.plain.sound.size
  have hcapacity := hq.plain.sound.capacity
  have hzero : (0 : Int32).toInt = 0 := rfl
  have hseek : ¬ q.mDataPos > INT32_MAX := by omega
  simp only at hread
  simp only [Parcel.skipRemoteStackTrace, Parcel.readInt32, hread, Reading.next, hzero, Int.toNat_zero, lt_irrefl,
    if_false, hq.plain.dataAvail_eq, gt_iff_lt, Nat.not_lt_zero, Nat.add_zero, Parcel.setDataPosition, if_neg hseek,
    Except.map]
  exact ⟨_, rfl, ⟨⟨hpos, hsize, hcapacity⟩, hq.plain.full, hq.plain.objects⟩, hq.content, hq.pos⟩

def seen (s : Status) : Status where
  mException := s.mException
  mErrorCode := if s.mException = EX_SERVICE_SPECIFIC then s.mErrorCode else 0
  mMessage := utf8 (utf16Chars (utf16Of s.mMessage))

theorem readRest_yields (s : Status) :
    Yields (readRest { mException := s.mException, mMessage := utf8 (utf16Chars (utf16Of s.mMessage)) }) s.wireRest
      s.seen := by
  intro p hplain hbs
  unfold wireRest at hbs
  unfold readRest seen
  split_ifs at hbs ⊢ with hspecific hparcelable
  · obtain ⟨q, hread, -⟩ := Parcel.readAligned_reads s.mErrorCode p hplain hbs
    exact ⟨q, by simp only at hread; simp only [Parcel.readInt32, hread, Reading.map, Reading.next]⟩
  · obtain ⟨q, hskip, -⟩ := skipHeader_ok hplain (show sizeWord 0 <+: p.ahead from hbs) (Nat.zero_le _)
    exact ⟨q, by simp only [hskip, Reading.map, Reading.next]⟩
  · exact ⟨p, rfl⟩

theorem readException_yields (s : Status) (hthrown : s.mException ≠ EX_NONE) :
    Yields (readException { mException := s.mException }) s.wireException s.seen := by
  intro p hplain hbs
  unfold wireException at hbs
  rw [if_neg hthrown] at hbs
  have htext := string8_text (wireUnits_le (hplain.le ((List.prefix_append _ _).trans hbs)))
  have hrest : Yields (fun p => p.skipRemoteStackTrace.next (fun _ p => readRest
      { mException := s.mException, mMessage := utf8 (utf16Chars (utf16Of s.mMessage)) } p)) _ s.seen :=
    .after skipRemoteStackTrace_reads (readRest_yields s)
  obtain ⟨q, hread⟩ := Yields.after (Parcel.readString16_reads (utf16Of s.mMessage))
    (k := fun message p =>
      match string8 message with
      | .error fault => .error fault
      | .ok message => p.skipRemoteStackTrace.next (fun _ p =>
          readRest { mException := s.mException, mMessage := message } p))
    (by simp only [htext]; exact hrest) p hplain hbs
  exact ⟨q, by simp only [readException, if_neg hthrown]; exact hread⟩

end Reads

structure Seen (s t : Status) : Prop where
  exception : t.mException = if s.mException = EX_HAS_REPLY_HEADER then EX_NONE else s.mException
  errorCode : t.mErrorCode = if s.mException = EX_SERVICE_SPECIFIC then s.mErrorCode else 0
  message : t.isOk = false → ValidUtf8 s.mMessage → t.mMessage = s.mMessage
  lost : t.isOk = true → t.mMessage = []
  text : ValidUtf8 t.mMessage

theorem seen_text (s : Status) (h : ValidUtf8 s.mMessage) : s.seen.mMessage = s.mMessage := by
  obtain ⟨cs, hcs⟩ := h
  rw [seen, hcs]
  simp only
  rw [utf16Of_text, utf16Chars_utf16]

theorem readFields_none : Parcel.Reads (readFields {}) (Packed.pack EX_NONE) {} := by
  have hrest : Parcel.Reads (readException {}) [] {} := fun p hplain _ => ⟨p, rfl, hplain, rfl, rfl⟩
  exact (Parcel.readAligned_reads EX_NONE).next hrest

theorem readFields_yields (s : Status) (hthrown : s.mException ≠ EX_NONE)
    (hheader : s.mException ≠ EX_HAS_REPLY_HEADER) :
    Yields (readFields {}) s.wireStatus s.seen := by
  refine .after (Parcel.readAligned_reads s.mException) ?_
  simp only [if_neg hheader]
  exact readException_yields s hthrown

/-- What was an exception reads as success. The length of its message is taken for the size of a header, so the cursor
stops inside the message. -/
theorem readFields_header (s : Status) (hheader : s.mException = EX_HAS_REPLY_HEADER) (hplain : p.Plain)
    (hbs : s.wireStatus <+: p.ahead) :
    ∃ q, readFields {} p = .ok (.ok {}, q) ∧ q.mDataPos = p.mDataPos + 4 + (utf16Of s.mMessage).length := by
  have hthrown : s.mException ≠ EX_NONE := by
    rw [hheader]
    decide
  obtain ⟨u, hread, hu⟩ := Parcel.readAligned_reads s.mException p hplain ((List.prefix_append _ _).trans hbs)
  have hrest := hu.ahead hbs
  unfold wireException at hrest
  rw [if_neg hthrown] at hrest
  have hwithin := hu.plain.within ((List.prefix_append _ _).trans hrest)
  have hpad := (padSize_range (((utf16Of s.mMessage).length + 1) * 2)).1
  rw [wireUnits_length] at hwithin
  rw [wireUnits, List.append_assoc] at hrest
  obtain ⟨q, hskip, hq⟩ := skipHeader_ok hu.plain ((List.prefix_append _ _).trans hrest) (by omega)
  refine ⟨q, ?_, ?_⟩
  · simp only at hread
    simp only [readFields, Parcel.readInt32, hread, Reading.next, if_pos hheader, hskip]
    rfl
  · rw [hq, hu.pos, Packed.pack_length]
    rfl

theorem Seen.success (h : s.mException = EX_NONE ∨ s.mException = EX_HAS_REPLY_HEADER) : Seen s {} := by
  refine ⟨?_, ?_, fun hthrown => ?_, fun _ => rfl, ⟨[], rfl⟩⟩
  · rcases h with h | h <;> rw [h] <;> rfl
  · rcases h with h | h <;> rw [h] <;> rfl
  · cases hthrown

theorem Seen.thrown (hok : s.mException ≠ EX_NONE) (hheader : s.mException ≠ EX_HAS_REPLY_HEADER) :
    Seen s s.seen :=
  ⟨by rw [if_neg hheader]; rfl, rfl, fun _ => seen_text s, fun htold => absurd (beq_iff_eq.mp htold) hok, ⟨_, rfl⟩⟩

theorem status_comes_back (hgives : Parcel.Gives heap) (h : p.AtEnd) (s : Status)
    (hsent : s.mException ≠ EX_TRANSACTION_FAILED) (hfits : p.Fits s.wireStatus) :
    ∃ q, s.writeToParcel heap p = .ok (0, q) ∧ Parcel.Appended p s.wireStatus q ∧ ∀ r : Parcel, Parcel.Rewound p q r →
      ∃ t u, readFromParcel {} r = .ok (.noError, t, u) ∧ Seen s t ∧ (s.isOk → u.mDataPos = q.mDataPos) ∧
        (s.mException = EX_HAS_REPLY_HEADER → u.mDataPos = p.mDataPos + 4 + (utf16Of s.mMessage).length) := by
  obtain ⟨q, hwrite, hq⟩ := writeFields_appends hgives s p h (Nat.zero_le _) hfits
  have hany : 0 < s.wireStatus.length := by
    rw [wireStatus, List.length_append, Packed.pack_length]
    exact Nat.lt_of_lt_of_le (by decide) (Nat.le_add_right _ _)
  refine ⟨q, by simp only [writeToParcel, if_neg hsent, hwrite]; rfl, hq, fun r hr => ?_⟩
  obtain ⟨hplain, hahead⟩ := hr.plain h hq hany
  by_cases hok : s.mException = EX_NONE
  · have hbytes : s.wireStatus = Packed.pack EX_NONE := by
      rw [wireStatus, wireException, if_pos hok, hok, List.append_nil]
    rw [hbytes] at hq
    obtain ⟨u, hread, hend⟩ := hq.read_back h (by decide) readFields_none hr
    refine ⟨{}, u, by simp only [readFromParcel, hread], .success (.inl hok), fun _ => hend, fun hheader => ?_⟩
    rw [hok] at hheader
    exact absurd hheader (by decide)
  · have hnot : ¬ s.isOk := fun htold => hok (beq_iff_eq.mp htold)
    by_cases hheader : s.mException = EX_HAS_REPLY_HEADER
    · obtain ⟨u, hread, hu⟩ := readFields_header s hheader hplain hahead
      rw [hr.pos] at hu
      exact ⟨{}, u, by simp only [readFromParcel, hread], .success (.inr hheader), fun htold => absurd htold hnot,
        fun _ => hu⟩
    · obtain ⟨u, hread⟩ := readFields_yields s hok hheader r hplain hahead
      exact ⟨s.seen, u, by simp only [readFromParcel, hread], .thrown hok hheader, fun htold => absurd htold hnot,
        fun hthere => absurd hthere hheader⟩

theorem status_comes_back_specific : ∃ q r t u,
    writeToParcel .ample ⟨EX_SERVICE_SPECIFIC, 7, [0x6E, 0x6F]⟩ {} = .ok (0, q) ∧ q.setDataPosition 0 = .ok r ∧
      readFromParcel {} r = .ok (.noError, t, u) ∧ Seen ⟨EX_SERVICE_SPECIFIC, 7, [0x6E, 0x6F]⟩ t := by
  have hend : Parcel.AtEnd {} := ⟨Parcel.empty_sound, rfl, rfl, rfl⟩
  have htext : [0x6E, 0x6F] = utf8 ['n', 'o'] := by decide
  have hfits : Parcel.Fits {} (wireStatus ⟨EX_SERVICE_SPECIFIC, 7, [0x6E, 0x6F]⟩) := by
    rw [wireStatus, wireException, if_neg (by decide), htext, utf16Of_text]
    unfold Parcel.Fits
    decide
  obtain ⟨q, hwrite, hq, hread⟩ := status_comes_back Parcel.ample_gives hend
    ⟨EX_SERVICE_SPECIFIC, 7, [0x6E, 0x6F]⟩ (by decide) hfits
  obtain ⟨r, hseek, hr⟩ := hq.rewind hend
  obtain ⟨t, u, hback, hseen, -⟩ := hread r hr
  exact ⟨q, r, t, u, hwrite, hseek, hback, hseen⟩

end RoundTrip

section Received

variable (hshort : data.length ≤ INT32_MAX)

include hshort

theorem skipHeader_safe : Parcel.Safe data objects Parcel.skipHeader (fun _ _ => True) := by
  intro p hp
  obtain ⟨x, q, hread, hq, hx⟩ := Parcel.readAligned_safe Int32 p hp
  have hpos := hp.pos
  simp only at hread
  simp only [Parcel.skipHeader, hp.dataAvail hshort, Parcel.readInt32, hread]
  cases x with
  | error err => exact ⟨.error err, q, rfl, hq, fun a ha => by cases ha⟩
  | ok headerSize =>
    simp only [Reading.next]
    split_ifs with hrange
    · exact ⟨_, q, rfl, hq, fun a ha => by cases ha⟩
    · obtain ⟨r, hseek, hr, hend⟩ := hq.setDataPosition hshort
        (show p.mDataPos + headerSize.toInt.toNat ≤ data.length by omega)
      exact ⟨.ok (), r, by rw [hseek]; rfl, hr, fun _ _ => ⟨_, hend, trivial⟩⟩

theorem skipRemoteStackTrace_safe : Parcel.Safe data objects Parcel.skipRemoteStackTrace (fun _ _ => True) := by
  refine (Parcel.readAligned_safe Int32).next (fun headerSize _ _ q hq => ?_)
  have hpos := hq.pos
  simp only [hq.dataAvail hshort]
  split_ifs with hnegative hlarge
  · exact ⟨_, q, rfl, hq, fun a ha => by cases ha⟩
  · exact ⟨_, q, rfl, hq, fun a ha => by cases ha⟩
  · obtain ⟨r, hseek, hr, hend⟩ := hq.setDataPosition hshort
      (show q.mDataPos + headerSize.toInt.toNat ≤ data.length by omega)
    exact ⟨.ok (), r, by rw [hseek]; rfl, hr, fun _ _ => ⟨_, hend, trivial⟩⟩

theorem readRest_safe (hmessage : ValidUtf8 s.mMessage) :
    Parcel.Safe data objects (readRest s) (fun t _ => ValidUtf8 t.mMessage) := by
  unfold readRest
  split_ifs
  · exact (Parcel.readAligned_safe Int32).map (fun _ _ _ => hmessage)
  · exact (skipHeader_safe hshort).map (fun _ _ _ => hmessage)
  · intro p hp
    refine ⟨_, p, rfl, hp, fun t ht => ?_⟩
    obtain rfl := Except.ok.inj ht
    exact ⟨0, rfl, hmessage⟩

theorem readException_safe (hmessage : ValidUtf8 s.mMessage) :
    Parcel.Safe data objects (readException s) (fun t _ => ValidUtf8 t.mMessage) := by
  unfold readException
  split_ifs
  · intro p hp
    refine ⟨_, p, rfl, hp, fun t ht => ?_⟩
    obtain rfl := Except.ok.inj ht
    exact ⟨0, rfl, hmessage⟩
  · refine Parcel.readString16_safe.next (fun message taken hle => ?_)
    rw [string8_text (wireUnits_le (hle.2.trans hshort))]
    exact (skipRemoteStackTrace_safe hshort).next (fun _ _ _ => readRest_safe hshort ⟨_, rfl⟩)

theorem readFields_safe (hmessage : ValidUtf8 s.mMessage) :
    Parcel.Safe data objects (readFields s) (fun t _ => ValidUtf8 t.mMessage) := by
  refine (Parcel.readAligned_safe Int32).next (fun ex taken _ => ?_)
  split_ifs
  · exact (skipHeader_safe hshort).next (fun _ _ _ => readException_safe hshort hmessage)
  · exact readException_safe hshort hmessage

theorem readFromParcel_received (objects : List ℕ) : ∃ err t q,
    readFromParcel {} (Parcel.received data objects) = .ok (err, t, q) ∧ q.content = data ∧ q.mDataPos ≤ data.length ∧
      ValidUtf8 t.mMessage ∧ (err ≠ .noError → t.mException = EX_TRANSACTION_FAILED ∧ t.mErrorCode = err.code) := by
  have hopened : Parcel.Opened data objects (Parcel.received data objects) :=
    ⟨Parcel.received_delivered data objects, Nat.zero_le _⟩
  obtain ⟨x, q, hread, hq, hx⟩ := readFields_safe hshort (s := {}) ⟨[], rfl⟩ _ hopened
  cases x with
  | ok t =>
    obtain ⟨-, -, hmessage⟩ := hx t rfl
    exact ⟨.noError, t, q, by simp only [readFromParcel, hread], hq.delivered.content, hq.pos, hmessage,
      fun hfailed => absurd rfl hfailed⟩
  | error err =>
    refine ⟨err, setFromStatusT err, q, by simp only [readFromParcel, hread], hq.delivered.content, hq.pos, ⟨[], rfl⟩,
      fun hfailed => ⟨if_neg hfailed, rfl⟩⟩

omit hshort in
theorem readFromParcel_received_header : ∃ err t q,
    readFromParcel {} (Parcel.received [0x80, 0xFF, 0xFF, 0xFF, 0xFF, 0xFF, 0xFF, 0x7F] []) = .ok (err, t, q) ∧
      q.content = [0x80, 0xFF, 0xFF, 0xFF, 0xFF, 0xFF, 0xFF, 0x7F] ∧ q.mDataPos ≤ 8 ∧ ValidUtf8 t.mMessage ∧
      (err ≠ .noError → t.mException = EX_TRANSACTION_FAILED ∧ t.mErrorCode = err.code) :=
  readFromParcel_received (by decide) []

end Received

end Status

end BinderDownload.Wire
