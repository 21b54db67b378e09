import BinderDownload.Wire.Status

/-!
A call of a method through its proxy and its stub, as they are generated from AIDL. The driver carries the bytes of a
parcel from one process to the other.
-/

namespace BinderDownload.Wire

open Text

structure CallHeader where
  strictModePolicy : Int32
  workSource : Int32
  deriving DecidableEq

def STRICT_MODE_PENALTY_GATHER : Int32 := -2147483648

def kHeader : Int32 := 0x53595354

def BAD_TYPE : Int32 := -2147483647
def UNEXPECTED_NULL : Int32 := StatusT.unexpectedNull.code
def NOT_ENOUGH_DATA : Int32 := StatusT.notEnoughData.code
def EX_NULL_POINTER : Int32 := -4

namespace Parcel

/-- Only of the last write it is asked whether it took place. -/
def writeInterfaceToken (heap : Heap) (interface : List UInt16) (header : CallHeader) (p : Parcel) : Writing :=
  (p.writeInt32 heap (header.strictModePolicy ||| STRICT_MODE_PENALTY_GATHER)).bind (fun r =>
    (r.2.writeInt32 heap header.workSource).bind (fun r =>
      (r.2.writeInt32 heap kHeader).bind (fun r => r.2.writeString16 heap interface)))

def enforceInterface (interface : List UInt16) (p : Parcel) : Except Fault (Option CallHeader × Parcel) := do
  let (strictPolicy, p) ← p.readAlignedOrZero Int32
  let (workSource, p) ← p.readAlignedOrZero Int32
  let (header, p) ← p.readAlignedOrZero Int32
  if header ≠ kHeader then
    return (none, p)
  let (str, p) ← p.readString16Inplace
  return (if str.getD [] = interface then some ⟨strictPolicy, workSource⟩ else none, p)

end Parcel

def Status.fromExceptionCode (exceptionCode : Int32) : Status := { mException := exceptionCode }

def Status.fromStatusT (status : Int32) : Status := ⟨if status = 0 then EX_NONE else EX_TRANSACTION_FAILED, status, []⟩

structure Method where
  interface : List UInt16
  arguments : List Shape
  results : List Shape

abbrev Impl := CallHeader → List Parcel.Datum → Status × List Parcel.Datum

abbrev Driver := Bytes → List ℕ → Except Int32 Parcel

def DEAD_OBJECT : Int32 := -32
def FAILED_TRANSACTION : Int32 := -2147483646

def transact (driver : Driver) (data : Parcel) (stub : Parcel → Except Fault (Int32 × Parcel)) :
    Except Fault (Int32 × Parcel) :=
  if data.mError ≠ .noError then .ok (data.mError.code, {})
  else
    match driver data.content data.mObjects with
    | .error err => .ok (err, {})
    | .ok data =>
      (stub data).map (fun r : Int32 × Parcel =>
        let error : Int32 := if r.1 < 0 then r.1 else r.2.mError.code
        if error ≠ 0 then
          match driver (Packed.pack error) [] with
          | .error err => (err, {})
          | .ok _ => (error, {})
        else
          match driver r.2.content r.2.mObjects with
          | .error err => (err, {})
          | .ok reply => (0, reply))

namespace Method

variable (heap server : Heap) (driver : Driver) (m : Method) (impl : Impl)

def writeReply (answer : Status × List Parcel.Datum) : Except Fault (Int32 × Parcel) :=
  match answer.1.writeToParcel server {} with
  | .error fault => .error fault
  | .ok (ret, reply) =>
    if ret ≠ 0 ∨ answer.1.isOk = false then .ok (ret, reply)
    else (Parcel.writeMessage server answer.2 reply).map (fun r => (r.1.code, r.2))

def dispatch (data : Parcel) : Except Fault (Int32 × Parcel) :=
  match data.enforceInterface m.interface with
  | .error fault => .error fault
  | .ok (none, _) => .ok (BAD_TYPE, {})
  | .ok (some header, data) =>
    match Parcel.readMessage m.arguments data with
    | .error fault => .error fault
    | .ok (.error err, _) => .ok (err.code, {})
    | .ok (.ok args, _) => writeReply server (impl header args)

def onTransact (data : Parcel) : Except Fault (Int32 × Parcel) :=
  match m.dispatch server impl data with
  | .error fault => .error fault
  | .ok (ret, reply) =>
    if ret = UNEXPECTED_NULL then (Status.fromExceptionCode EX_NULL_POINTER).writeToParcel server reply
    else .ok (ret, reply)

def receiveReply (err : Int32) (reply : Parcel) : Except Fault (Status × List Parcel.Datum) :=
  if err ≠ 0 then .ok (.fromStatusT err, [])
  else
    match Status.readFromParcel {} reply with
    | .error fault => .error fault
    | .ok (err, status, reply) =>
      if err ≠ .noError then .ok (.fromStatusT err.code, [])
      else if status.isOk = false then .ok (status, [])
      else
        match Parcel.readMessage m.results reply with
        | .error fault => .error fault
        | .ok (.error err, _) => .ok (.fromStatusT err.code, [])
        | .ok (.ok results, _) => .ok (.fromStatusT 0, results)

def call (header : CallHeader) (args : List Parcel.Datum) : Except Fault (Status × List Parcel.Datum) :=
  match (Parcel.writeInterfaceToken heap m.interface header {}).next (Parcel.writeMessage heap args) with
  | .error fault => .error fault
  | .ok (.noError, data) =>
    match transact driver data (m.onTransact server impl) with
    | .error fault => .error fault
    | .ok (err, reply) => m.receiveReply err reply
  | .ok (err, _) => .ok (.fromStatusT err.code, [])

end Method

def CallHeader.seen (header : CallHeader) : CallHeader :=
  ⟨header.strictModePolicy ||| STRICT_MODE_PENALTY_GATHER, header.workSource⟩

def wireToken (interface : List UInt16) (header : CallHeader) : Bytes :=
  Packed.pack header.seen.strictModePolicy ++
    (Packed.pack header.workSource ++ (Packed.pack kHeader ++ wireUnits interface))

namespace Parcel

variable {heap : Heap} {p q : Parcel} {as bs : Bytes} {interface : List UInt16} {header : CallHeader}

theorem Appends.ignore {w v : Parcel → Writing} (h : Appends 0 w as) (hnext : Appends 0 v bs) :
    Appends 0 (fun p => (w p).bind (fun r => v r.2)) (as ++ bs) := by
  intro p hend hleast hfits
  obtain ⟨q, hw, hq⟩ := h p hend hleast hfits.front
  obtain ⟨r, hv, hr⟩ := hnext q hq.atEnd (Nat.zero_le _) (hfits.rest hend.sound hq)
  refine ⟨r, ?_, hq.trans hr⟩
  simp only [hw, Except.bind, hv]

theorem writeInterfaceToken_appends (hgives : Gives heap) :
    Appends 0 (writeInterfaceToken heap interface header) (wireToken interface header) :=
  (writeAligned_appends hgives _).ignore ((writeAligned_appends hgives header.workSource).ignore
    ((writeAligned_appends hgives kHeader).ignore (writeString16_appends hgives interface)))

theorem readAlignedOrZero_reads {α : Type} [Packed α] {val : α} (h : p.Plain)
    (hbs : Packed.pack val ++ bs <+: p.ahead) :
    ∃ q, p.readAlignedOrZero α = .ok (val, q) ∧ q.Plain ∧ bs <+: q.ahead ∧ Passed p (Packed.pack val).length q := by
  obtain ⟨q, hread, hq⟩ := readAligned_reads val p h ((List.prefix_append _ _).trans hbs)
  simp only at hread
  exact ⟨q, by rw [readAlignedOrZero, hread]; rfl, hq.plain, hq.ahead hbs, hq⟩

theorem enforceInterface_reads (h : p.Plain) (hbs : wireToken interface header ++ bs <+: p.ahead) :
    ∃ q, p.enforceInterface interface = .ok (some header.seen, q) ∧ q.Plain ∧ bs <+: q.ahead := by
  simp only [wireToken, List.append_assoc] at hbs
  obtain ⟨q, hpolicy, hq, hbs, -⟩ := readAlignedOrZero_reads h hbs
  obtain ⟨r, hsource, hr, hbs, -⟩ := readAlignedOrZero_reads hq hbs
  obtain ⟨s, hheader, hs, hbs, -⟩ := readAlignedOrZero_reads hr hbs
  obtain ⟨u, hname, hu⟩ := readString16Inplace_reads hs ((List.prefix_append _ _).trans hbs)
  refine ⟨u, ?_, hu.plain, hu.ahead hbs⟩
  simp only [enforceInterface, hpolicy, hsource, hheader, hname, bind, Except.bind, ne_eq, not_true_eq_false, if_false,
    Option.getD_some, if_true]
  rfl

theorem Appended.delivered (hq : Appended {} bs q) : Rewound {} q (received q.content []) := by
  have hlength := hq.atEnd.sound.content_length
  have hsize := hq.atEnd.sound.size
  have hcapacity := hq.atEnd.sound.capacity
  refine ⟨⟨Nat.zero_le _, Nat.le_refl _, ?_⟩, rfl, ?_, rfl⟩
  · show q.content.length ≤ INT32_MAX
    omega
  · exact List.take_length

theorem Appended.received_ahead (hq : Appended {} bs q) (hany : 0 < bs.length) :
    (received q.content []).Plain ∧ bs <+: (received q.content []).ahead :=
  hq.delivered.plain ⟨empty_sound, rfl, rfl, rfl⟩ hq hany

end Parcel

namespace Method

variable {client server : Heap} {driver : Driver} {m : Method} {impl : Impl} {header : CallHeader}
  {args results : List Parcel.Datum} {status : Status} {reply : Parcel}

structure Outcome (status : Status) (results : List Parcel.Datum) (t : Status) (values : List Parcel.Datum) : Prop where
  returned : status.isOk → t = {} ∧ values = results
  thrown : status.isOk = false → t.isOk = false ∧ values = []
  seen : status.mException ≠ EX_TRANSACTION_FAILED → Status.Seen status t
  failed : status.mException = EX_TRANSACTION_FAILED → status.mErrorCode < 0 → status.mErrorCode ≠ UNEXPECTED_NULL →
    t = .fromStatusT status.mErrorCode
  null : status.mException = EX_TRANSACTION_FAILED → status.mErrorCode = UNEXPECTED_NULL →
    t.mException = EX_NULL_POINTER
  lost : status.mException = EX_TRANSACTION_FAILED → ¬ status.mErrorCode < 0 → t = .fromStatusT NOT_ENOUGH_DATA

theorem Outcome.ofSent {t : Status} {values : List Parcel.Datum} (hsent : status.mException ≠ EX_TRANSACTION_FAILED)
    (hreturned : status.isOk → t = {} ∧ values = results) (hthrown : status.isOk = false → t.isOk = false ∧ values = [])
    (hseen : Status.Seen status t) : Outcome status results t values where
  returned := hreturned
  thrown := hthrown
  seen _ := hseen
  failed h := absurd h hsent
  null h := absurd h hsent
  lost h := absurd h hsent

def wireReply (answer : Status × List Parcel.Datum) : Bytes :=
  answer.1.wireStatus ++ if answer.1.isOk then Parcel.wireMessage answer.2 else []

theorem dispatch_answers (hargs : args.map Sigma.fst = m.arguments) (hvalid : ∀ value ∈ args, value.1.Valid value.2)
    {data : Parcel} (hdata : data.Plain)
    (hbs : wireToken m.interface header ++ Parcel.wireMessage args <+: data.ahead) :
    m.dispatch server impl data = writeReply server (impl header.seen args) := by
  obtain ⟨q, henforce, hq, hahead⟩ := Parcel.enforceInterface_reads hdata hbs
  obtain ⟨r, hread, -⟩ := Parcel.readMessage_reads hvalid q hq hahead
  rw [dispatch, henforce]
  simp only
  rw [← hargs, hread]

theorem status_written (hserver : Parcel.Gives server) (hsent : status.mException ≠ EX_TRANSACTION_FAILED)
    (hfits : Parcel.Fits {} status.wireStatus) :
    ∃ reply, status.writeToParcel server {} = .ok (0, reply) ∧ Parcel.Appended {} status.wireStatus reply := by
  obtain ⟨q, hwrite, hq⟩ := Status.writeFields_appends hserver status {} ⟨Parcel.empty_sound, rfl, rfl, rfl⟩
    (Nat.zero_le _) hfits
  exact ⟨q, by simp only [Status.writeToParcel, if_neg hsent, hwrite]; rfl, hq⟩

theorem writeReply_sent (hserver : Parcel.Gives server) (hsent : status.mException ≠ EX_TRANSACTION_FAILED)
    (hvalid : status.isOk → ∀ value ∈ results, value.1.Valid value.2)
    (hfits : Parcel.Fits {} (wireReply (status, results))) :
    ∃ reply, writeReply server (status, results) = .ok (0, reply) ∧
      Parcel.Appended {} (wireReply (status, results)) reply := by
  obtain ⟨q, hwrite, hq⟩ := status_written hserver hsent hfits.front
  unfold writeReply wireReply at *
  simp only [hwrite]
  by_cases hok : status.isOk
  · rw [if_pos hok] at hfits ⊢
    obtain ⟨reply, hresults, hreply⟩ := Parcel.writeMessage_appends hserver (hvalid hok) q hq.atEnd (Nat.zero_le _)
      (hfits.rest Parcel.empty_sound hq)
    refine ⟨reply, ?_, hq.trans hreply⟩
    rw [if_neg (by simp [hok]), hresults]
    rfl
  · rw [if_neg hok, List.append_nil]
    exact ⟨q, if_pos (.inr (Bool.not_eq_true _ ▸ hok)), hq⟩

theorem receiveReply_sent (hshape : status.isOk → results.map Sigma.fst = m.results)
    (hvalid : status.isOk → ∀ value ∈ results, value.1.Valid value.2)
    (hsent : status.mException ≠ EX_TRANSACTION_FAILED) (hheader : status.mException ≠ EX_HAS_REPLY_HEADER)
    (hreply : Parcel.Appended {} (wireReply (status, results)) reply) :
    ∃ t values, m.receiveReply 0 (Parcel.received reply.content []) = .ok (t, values) ∧
      Outcome status results t values := by
  have hany : 0 < (wireReply (status, results)).length := by
    rw [wireReply, Status.wireStatus, List.length_append, List.length_append, Packed.pack_length]
    exact Nat.lt_of_lt_of_le (show 0 < Packed.size Int32 by decide) (by omega)
  obtain ⟨hplain, hahead⟩ := hreply.received_ahead hany
  unfold wireReply at hahead
  by_cases hok : status.isOk
  · have hnone : status.mException = EX_NONE := beq_iff_eq.mp hok
    have hbytes : status.wireStatus = Packed.pack EX_NONE := by
      rw [Status.wireStatus, Status.wireException, if_pos hnone, hnone, List.append_nil]
    rw [if_pos hok, hbytes] at hahead
    obtain ⟨q, hstatus, hq⟩ := Status.readFields_none _ hplain ((List.prefix_append _ _).trans hahead)
    obtain ⟨r, hresults, -⟩ := Parcel.readMessage_reads (hvalid hok) q hq.plain (hq.ahead hahead)
    refine ⟨{}, results, ?_, .ofSent hsent (fun _ => ⟨rfl, rfl⟩) (fun hnot => absurd hok (by simp [hnot]))
      (.success (.inl hnone))⟩
    rw [receiveReply, if_neg (by decide), Status.readFromParcel, hstatus]
    simp only
    rw [← hshape hok, hresults]
    rfl
  · have hthrown : status.mException ≠ EX_NONE := fun hnone => hok (beq_iff_eq.mpr hnone)
    have hnot : status.seen.isOk = false := beq_eq_false_iff_ne.mpr hthrown
    obtain ⟨q, hstatus⟩ := Status.readFields_yields status hthrown hheader _ hplain
      ((List.prefix_append _ _).trans hahead)
    refine ⟨status.seen, [], ?_, .ofSent hsent (fun htold => absurd htold hok) (fun _ => ⟨hnot, rfl⟩)
      (.thrown hthrown hheader)⟩
    rw [receiveReply, if_neg (by decide), Status.readFromParcel, hstatus]
    simp only [hnot]
    rfl

/-- The driver delivers what it was given, or says that the other process is gone or that it could not. -/
structure Faithful (driver : Driver) : Prop where
  intact : ∀ {data p}, driver data [] = .ok p → p = Parcel.received data []
  failed : ∀ {data err}, driver data [] = .error err → err = DEAD_OBJECT ∨ err = FAILED_TRANSACTION

theorem Faithful.ne_zero (h : Faithful driver) {data : Bytes} {err : Int32} (hfailed : driver data [] = .error err) :
    err ≠ 0 := by
  rcases h.failed hfailed with rfl | rfl <;> decide

structure Undelivered (driver : Driver) (size : ℕ) (t : Status) (values : List Parcel.Datum) : Prop where
  values : values = []
  failed : ∃ data err, data.length ≤ size ∧ driver data [] = .error err ∧ t = .fromStatusT err

theorem receiveReply_failed {err : Int32} (herr : err ≠ 0) :
    m.receiveReply err reply = .ok (.fromStatusT err, []) := if_pos herr

theorem writeReply_failed (hfailed : status.mException = EX_TRANSACTION_FAILED) :
    writeReply server (status, results) = .ok (status.mErrorCode, {}) := by
  have hnot : status.isOk = false := by
    rw [Status.isOk, hfailed]
    decide
  simp only [writeReply, Status.writeToParcel, if_pos hfailed, hnot, or_true, if_true]

theorem receiveReply_nothing :
    m.receiveReply 0 (Parcel.received [] []) = .ok (.fromStatusT NOT_ENOUGH_DATA, []) := by
  have hread : Status.readFromParcel {} (Parcel.received [] []) =
      .ok (.notEnoughData, Status.setFromStatusT .notEnoughData, Parcel.received [] []) := rfl
  rw [receiveReply, if_neg (by decide), hread]
  rfl

theorem fromStatusT_thrown {code : Int32} (hcode : code ≠ 0) : (Status.fromStatusT code).isOk = false := by
  rw [Status.isOk, Status.fromStatusT, if_neg hcode]
  exact beq_false_of_ne (show EX_TRANSACTION_FAILED ≠ EX_NONE by decide)

theorem onTransact_kept {data : Parcel} {ret : Int32} (h : m.dispatch server impl data = .ok (ret, reply))
    (hret : ret ≠ UNEXPECTED_NULL) : m.onTransact server impl data = .ok (ret, reply) := by
  rw [onTransact, h]
  exact if_neg hret

theorem wireReply_exception {code : Int32} (hthrown : code ≠ EX_NONE) (hspecific : code ≠ EX_SERVICE_SPECIFIC)
    (hparcelable : code ≠ EX_PARCELABLE) : (wireReply (.fromExceptionCode code, [])).length = 16 := by
  have hnot : (Status.fromExceptionCode code).isOk = false := beq_false_of_ne hthrown
  have hrest : (Status.fromExceptionCode code).wireRest = [] := by
    rw [Status.wireRest]
    exact (if_neg hspecific).trans (if_neg hparcelable)
  have hnil : utf16Of (Status.fromExceptionCode code).mMessage = [] := utf16Of_text []
  have hexception : (Status.fromExceptionCode code).mException ≠ EX_NONE := hthrown
  simp only [wireReply, hnot, Status.wireStatus, Status.wireException, if_neg hexception, hrest, hnil,
    Bool.false_eq_true, if_false, List.append_nil, List.length_append, Packed.pack_length, wireUnits_length]
  rfl

theorem onTransact_null (hserver : Parcel.Gives server) {data : Parcel}
    (h : m.dispatch server impl data = .ok (UNEXPECTED_NULL, {})) :
    ∃ reply, m.onTransact server impl data = .ok (0, reply) ∧
      Parcel.Appended {} (wireReply (.fromExceptionCode EX_NULL_POINTER, [])) reply ∧
      (wireReply (.fromExceptionCode EX_NULL_POINTER, [])).length = 16 := by
  have hlength := wireReply_exception (show EX_NULL_POINTER ≠ EX_NONE by decide) (by decide) (by decide)
  have hwire : wireReply (.fromExceptionCode EX_NULL_POINTER, []) =
      Status.wireStatus (.fromExceptionCode EX_NULL_POINTER) := by
    rw [wireReply, if_neg (by decide), List.append_nil]
  rw [hwire] at hlength ⊢
  have hfits : Parcel.Fits {} (Status.wireStatus (.fromExceptionCode EX_NULL_POINTER)) := by
    rw [Parcel.Fits, hlength]
    decide
  obtain ⟨reply, hwrite, hreply⟩ := status_written hserver (by decide) hfits
  refine ⟨reply, ?_, hreply, hlength⟩
  rw [onTransact, h]
  simp only [if_true, hwrite]

section Transact

variable {data received : Parcel} {stub : Parcel → Except Fault (Int32 × Parcel)} {ret : Int32} {bs : Bytes}

theorem transact_refused (hdata : data.mError = .noError) (hdriver : driver data.content data.mObjects = .ok received)
    (hstub : stub received = .ok (ret, reply)) (hret : ret < 0) :
    ∃ err, transact driver data stub = .ok (err, {}) ∧ (err = ret ∨ driver (Packed.pack ret) [] = .error err) := by
  have hnot : ret ≠ 0 := fun hzero => absurd hret (by rw [hzero]; decide)
  rw [transact, if_neg (not_not.mpr hdata), hdriver]
  simp only [hstub, Except.map, if_pos hret, ne_eq, hnot, not_false_eq_true, if_true]
  cases hcode : driver (Packed.pack ret) [] with
  | error err => exact ⟨err, rfl, .inr rfl⟩
  | ok carried => exact ⟨ret, rfl, .inl rfl⟩

theorem transact_answered (hfaithful : Faithful driver) (hdata : data.mError = .noError)
    (hdriver : driver data.content data.mObjects = .ok received) (hstub : stub received = .ok (ret, reply))
    (hret : ¬ ret < 0) (hreply : Parcel.Appended {} bs reply) :
    transact driver data stub = .ok (0, Parcel.received reply.content []) ∨
      ∃ err, driver bs [] = .error err ∧ transact driver data stub = .ok (err, {}) := by
  rw [transact, if_neg (not_not.mpr hdata), hdriver]
  have hcode : StatusT.noError.code = 0 := rfl
  have hbytes : reply.content = bs := hreply.content
  simp only [hstub, Except.map, if_neg hret, hreply.atEnd.error, hcode, ne_eq, not_true_eq_false, if_false,
    hreply.atEnd.objects, hbytes]
  cases hcarried : driver bs [] with
  | error err => exact .inr ⟨err, rfl, rfl⟩
  | ok carried => exact .inl (by rw [hfaithful.intact hcarried])

end Transact

section Transparent

variable {size : ℕ} (hclient : Parcel.Gives client) (hdriver : Faithful driver)
  (hargs : args.map Sigma.fst = m.arguments) (hvalid : ∀ value ∈ args, value.1.Valid value.2)
  (hrequest : Parcel.Fits {} (wireToken m.interface header ++ Parcel.wireMessage args))

def Ends (client server : Heap) (driver : Driver) (m : Method) (impl : Impl) (header : CallHeader)
    (args : List Parcel.Datum) (size : ℕ) (answer : Status × List Parcel.Datum) : Prop :=
  ∃ t values, m.call client server driver impl header args = .ok (t, values) ∧
    (Outcome answer.1 answer.2 t values ∨ Undelivered driver size t values)

theorem wireToken_length (interface : List UInt16) (header : CallHeader) :
    16 ≤ (wireToken interface header).length := by
  have hsize : Packed.size Int32 = 4 := rfl
  simp only [wireToken, List.length_append, Packed.pack_length, hsize, wireUnits_length]
  omega

include hclient hdriver hargs hvalid hrequest

theorem call_reaches (hsize : (wireToken m.interface header ++ Parcel.wireMessage args).length ≤ size)
    {answer : Status × List Parcel.Datum}
    (h : ∀ data received : Parcel, data.mError = .noError → driver data.content data.mObjects = .ok received →
      m.dispatch server impl received = writeReply server (impl header.seen args) →
      ∃ err reply, transact driver data (m.onTransact server impl) = .ok (err, reply) ∧
        ∃ t values, m.receiveReply err reply = .ok (t, values) ∧
          (Outcome answer.1 answer.2 t values ∨ Undelivered driver size t values)) :
    Ends client server driver m impl header args size answer := by
  obtain ⟨data, hwrite, hdata⟩ := ((Parcel.writeInterfaceToken_appends hclient).next
    (Parcel.writeMessage_appends hclient hvalid)) {} ⟨Parcel.empty_sound, rfl, rfl, rfl⟩ (Nat.zero_le _) hrequest
  have hlength := wireToken_length m.interface header
  obtain ⟨hplain, hahead⟩ := hdata.received_ahead (by rw [List.length_append]; omega)
  have hcall : m.call client server driver impl header args =
      match transact driver data (m.onTransact server impl) with
      | .error fault => .error fault
      | .ok (err, reply) => m.receiveReply err reply := by
    simp only [call, hwrite]
  have hbytes : data.content = wireToken m.interface header ++ Parcel.wireMessage args := hdata.content
  cases hcarried : driver data.content data.mObjects with
  | error err =>
    have hfailed : driver data.content [] = .error err := hdata.atEnd.objects ▸ hcarried
    refine ⟨.fromStatusT err, [], ?_, .inr ⟨rfl, data.content, err, hbytes ▸ hsize, hfailed, rfl⟩⟩
    rw [hcall, transact, if_neg (not_not.mpr hdata.atEnd.error), hcarried]
    exact receiveReply_failed (hdriver.ne_zero hfailed)
  | ok received =>
    have hintact : received = Parcel.received data.content [] := hdriver.intact (hdata.atEnd.objects ▸ hcarried)
    obtain ⟨err, reply, htransact, t, values, hreceive, houtcome⟩ := h data received hdata.atEnd.error hcarried
      (by rw [hintact]; exact dispatch_answers hargs hvalid hplain hahead)
    exact ⟨t, values, by rw [hcall, htransact]; exact hreceive, houtcome⟩

theorem call_answered (hsize : (wireToken m.interface header ++ Parcel.wireMessage args).length ≤ size)
    (hserver : Parcel.Gives server) (hanswer : impl header.seen args = (status, results))
    (hshape : status.isOk → results.map Sigma.fst = m.results)
    (hresults : status.isOk → ∀ value ∈ results, value.1.Valid value.2)
    (hsent : status.mException ≠ EX_TRANSACTION_FAILED) (hheader : status.mException ≠ EX_HAS_REPLY_HEADER)
    (hfits : Parcel.Fits {} (wireReply (status, results))) (hreply : (wireReply (status, results)).length ≤ size) :
    Ends client server driver m impl header args size (status, results) := by
  refine call_reaches hclient hdriver hargs hvalid hrequest hsize (fun data received herror hcarried hdispatch => ?_)
  obtain ⟨reply, hwritten, happended⟩ := writeReply_sent hserver hsent hresults hfits
  rw [hanswer, hwritten] at hdispatch
  have hstub := onTransact_kept hdispatch (show (0 : Int32) ≠ UNEXPECTED_NULL by decide)
  rcases transact_answered hdriver herror hcarried hstub (by decide) happended with htransact | ⟨err, hlost, htransact⟩
  · obtain ⟨t, values, hread, houtcome⟩ := receiveReply_sent hshape hresults hsent hheader happended
    exact ⟨_, _, htransact, t, values, hread, .inl houtcome⟩
  · exact ⟨_, _, htransact, _, _, receiveReply_failed (hdriver.ne_zero hlost), .inr ⟨rfl, _, err, hreply, hlost, rfl⟩⟩

theorem call_failed (hsize : (wireToken m.interface header ++ Parcel.wireMessage args).length ≤ size)
    (hserver : Parcel.Gives server) (hanswer : impl header.seen args = (status, results))
    (hfailed : status.mException = EX_TRANSACTION_FAILED) :
    Ends client server driver m impl header args size (status, results) := by
  have hlength := wireToken_length m.interface header
  rw [List.length_append] at hsize
  refine call_reaches hclient hdriver hargs hvalid hrequest (by rwa [List.length_append])
    (fun data received herror hcarried hdispatch => ?_)
  have hnot : ¬ status.isOk := by
    rw [Status.isOk, hfailed]
    decide
  rw [hanswer, writeReply_failed hfailed] at hdispatch
  by_cases hnull : status.mErrorCode = UNEXPECTED_NULL
  · -- the null is an answer after all, with an exception
    rw [hnull] at hdispatch
    obtain ⟨reply, hstub, happended, hshort⟩ := onTransact_null hserver hdispatch
    rcases transact_answered hdriver herror hcarried hstub (by decide) happended
      with htransact | ⟨err, hlost, htransact⟩
    · obtain ⟨t, values, hread, houtcome⟩ := receiveReply_sent (m := m) (fun hok => absurd hok (by decide))
        (fun hok => absurd hok (by decide)) (by decide) (by decide) happended
      have hexception := (houtcome.seen (by decide)).exception
      rw [if_neg (by decide)] at hexception
      refine ⟨_, _, htransact, t, values, hread, .inl ⟨fun hok => absurd hok hnot, fun _ => houtcome.thrown (by decide),
        fun hsent => absurd hfailed hsent, fun _ _ hother => absurd hnull hother, fun _ _ => hexception,
        fun _ hpositive => ?_⟩⟩
      exact absurd (show status.mErrorCode < 0 by rw [hnull]; decide) hpositive
    · exact ⟨_, _, htransact, _, _, receiveReply_failed (hdriver.ne_zero hlost),
        .inr ⟨rfl, _, err, by omega, hlost, rfl⟩⟩
  · have hstub := onTransact_kept hdispatch hnull
    by_cases hnegative : status.mErrorCode < 0
    · have hcode : status.mErrorCode ≠ 0 := fun hzero => absurd hnegative (by rw [hzero]; decide)
      obtain ⟨err, htransact, rfl | hlost⟩ := transact_refused herror hcarried hstub hnegative
      · exact ⟨_, _, htransact, _, _, receiveReply_failed hcode, .inl ⟨fun hok => absurd hok hnot,
          fun _ => ⟨fromStatusT_thrown hcode, rfl⟩, fun hsent => absurd hfailed hsent, fun _ _ _ => rfl,
          fun _ htold => absurd htold hnull, fun _ hpositive => absurd hnegative hpositive⟩⟩
      · have hfour : (Packed.pack status.mErrorCode).length = 4 := Packed.pack_length _
        exact ⟨_, _, htransact, _, _, receiveReply_failed (hdriver.ne_zero hlost),
          .inr ⟨rfl, _, err, by omega, hlost, rfl⟩⟩
    · rcases transact_answered hdriver herror hcarried hstub hnegative
        ⟨⟨Parcel.empty_sound, rfl, rfl, rfl⟩, rfl⟩ with htransact | ⟨err, hlost, htransact⟩
      · exact ⟨_, _, htransact, _, _, receiveReply_nothing, .inl ⟨fun hok => absurd hok hnot,
          fun _ => ⟨fromStatusT_thrown (by decide), rfl⟩, fun hsent => absurd hfailed hsent,
          fun _ htold _ => absurd htold hnegative, fun _ htold => absurd htold hnull, fun _ _ => rfl⟩⟩
      · exact ⟨_, _, htransact, _, _, receiveReply_failed (hdriver.ne_zero hlost),
          .inr ⟨rfl, _, err, Nat.zero_le _, hlost, rfl⟩⟩

end Transparent

def echo : Method := ⟨[0x65, 0x63, 0x68, 0x6F], [.packed .int32], [.packed .int32]⟩

def Impl.echo : Impl := fun _ args => ({}, args)

def carrying : Driver := fun data _ => .ok (Parcel.received data [])

theorem carrying_faithful : Faithful carrying where
  intact h := (Except.ok.inj h).symm
  failed h := by cases h

def fortyTwo : Parcel.Datum := ⟨.packed .int32, (42 : Int32)⟩

end Method

end BinderDownload.Wire
