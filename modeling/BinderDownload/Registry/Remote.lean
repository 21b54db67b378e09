import BinderDownload.Registry.Ends
import BinderDownload.Wire.Call

namespace BinderDownload.Registry

open Text Wire

def ExceptionCode.code : ExceptionCode → Int32
  | security => -1
  | illegalArgument => -3
  | nullPointer => EX_NULL_POINTER
  | illegalState => -5
  | unsupportedOperation => -7

def descriptor : List UInt16 := utf16 "android.os.IServiceManager".toList

def listing : Method := ⟨descriptor, [.packed .int32], [.vector .utf8]⟩

def Answer.written : Answer → Wire.Status × List Parcel.Datum
  | names (.ok found) => ({}, [⟨.vector .utf8, found⟩])
  | names (.error exception) => (.fromExceptionCode exception.code, [])
  | _ => ({}, [])

def Journal.lists (j : Journal) (ipc : IPCThreadState) (world : World) : Impl := fun _ args =>
  match args with
  | [⟨.packed .int32, dumpPriority⟩] =>
    ((j.ask ipc world (.listServices (Int32.toBitVec dumpPriority))).getD .silent).written
  | _ => ({}, [])

section Names

variable {name : Bytes}

theorem isNameChar_lt {c : UInt8} (h : isNameChar c = true) : c.toNat < 128 := by
  simp only [isNameChar, decide_eq_true_eq, UInt8.le_iff_toNat_le, ← UInt8.toNat_inj] at h
  simp only [UInt8.reduceToNat] at h
  omega

theorem plainChar {c : UInt8} (h : c.toNat < 128) :
    ∃ char : Char, String.utf8EncodeChar char = [c] ∧ (utf16Char char).length = 1 := by
  have hscalar : c.toNat.isValidChar := .inl (by omega)
  have htoNat : (Char.ofNat c.toNat).toNat = c.toNat := by
    rw [Char.ofNat, dif_pos hscalar]
    rfl
  refine ⟨Char.ofNat c.toNat, ?_, ?_⟩
  · rcases encode_cases (Char.ofNat c.toNat) with ⟨-, hbytes⟩ | ⟨hlarge, -⟩ | ⟨hlarge, -⟩ | ⟨hlarge, -⟩
    · rw [hbytes, htoNat, UInt8.ofNat_toNat]
    all_goals omega
  · rw [utf16Char_length, htoNat, if_neg (by omega)]

theorem plain_text (h : ∀ c ∈ name, c.toNat < 128) :
    ∃ chars, name = utf8 chars ∧ (utf16 chars).length = name.length := by
  induction name with
  | nil => exact ⟨[], rfl, rfl⟩
  | cons c name ih =>
    obtain ⟨char, hbytes, hunits⟩ := plainChar (h c List.mem_cons_self)
    obtain ⟨chars, hname, hlength⟩ := ih (fun d hd => h d (List.mem_cons_of_mem c hd))
    refine ⟨char :: chars, ?_, ?_⟩
    · rw [utf8_cons, hbytes, ← hname]
      rfl
    · rw [utf16_cons, List.length_append, hunits, hlength, List.length_cons, Nat.add_comm]

theorem name_text (h : isValidServiceName name = true) : ValidUtf8 name ∧ (utf16Of name).length ≤ 127 := by
  unfold isValidServiceName at h
  split_ifs at h with hempty hlong
  obtain ⟨chars, hname, hlength⟩ := plain_text (fun c hc => isNameChar_lt (List.all_eq_true.mp h c hc))
  refine ⟨⟨chars, hname⟩, ?_⟩
  rw [hname, utf16Of_text, hlength]
  omega

theorem wireName_length (h : isValidServiceName name = true) : (wireUnits (utf16Of name)).length ≤ 260 := by
  have hunits := (name_text h).2
  have hpad := (padSize_range (((utf16Of name).length + 1) * 2)).2
  rw [wireUnits_length]
  omega

theorem wireNames_length {names : List Bytes} (h : ∀ name ∈ names, isValidServiceName name = true) :
    (wire (.vector .utf8) names).length ≤ 4 + 260 * names.length := by
  have hnames : (names.flatMap (fun name => wireUnits (utf16Of name))).length ≤ names.length * 260 := by
    rw [List.length_flatMap]
    refine (List.sum_le_card_nsmul _ 260 (fun length hlength => ?_)).trans (by simp)
    obtain ⟨name, hname, rfl⟩ := List.mem_map.mp hlength
    exact wireName_length (h name hname)
  show (sizeWord names.length ++ names.flatMap (fun name => wireUnits (utf16Of name))).length ≤ _
  rw [List.length_append, sizeWord_length]
  omega

end Names

namespace Journal

variable {j : Journal} {events : List Event}

theorem run_names (hrun : run step {} events = some j) {name : Bytes} {service : Service}
    (hservice : j.manager.mNameToService[name]? = some service) : isValidServiceName name = true := by
  have hvalid : (j.manager.slot name).service.isSome → isValidServiceName name = true := by
    apply run_slot (P := fun s _ => s.service.isSome → isValidServiceName name = true) hrun
    · intro h
      cases h
    · intro s records event answer notices after hs heffect hafter
      cases heffect with
      | quiet => exact hs hafter
      | found hrequest hservice => exact hs (by rw [hservice]; rfl)
      | added hallowed => exact (Admitted.of_admission hallowed).valid
      | watched => exact hs hafter
      | unwatched => exact hs hafter
      | clientsWatched => exact hs hafter
      | clung hservice => exact hs (by rw [hservice]; rfl)
      | unregistered => cases hafter
      | died =>
        obtain ⟨service, hservice⟩ := Option.isSome_iff_exists.mp hafter
        exact hs (Option.isSome_iff_exists.mpr ⟨service, (Option.filter_eq_some_iff.mp hservice).1⟩)
      | asleep => exact hs hafter
      | timed hservice => exact hs (by rw [hservice]; rfl)
  exact hvalid (Option.isSome_iff_exists.mpr ⟨service, hservice⟩)

def listed (j : Journal) (p : Bytes × Service → Bool) : List Bytes :=
  (j.manager.mNameToService.toList.filter p).map Prod.fst

theorem listed_length (p : Bytes × Service → Bool) : (j.listed p).length ≤ j.manager.mNameToService.size := by
  rw [listed, List.length_map, ← Std.ExtTreeMap.length_toList]
  exact List.length_filter_le _ _

theorem listed_names (hrun : run step {} events = some j) (p : Bytes × Service → Bool) :
    ∀ name ∈ j.listed p, isValidServiceName name = true := by
  intro name hname
  obtain ⟨entry, hentry, rfl⟩ := List.mem_map.mp hname
  exact run_names hrun (Std.ExtTreeMap.mem_toList_iff_getElem?_eq_some.mp (List.mem_filter.mp hentry).1)

theorem lists_allowed (ipc : IPCThreadState) (world : World) (header : CallHeader) (dumpPriority : Int32)
    (hlist : world.selinux.canList (world.selinux.getCallingContext ipc) = true) :
    j.lists ipc world header [⟨.packed .int32, dumpPriority⟩] =
      ({}, [⟨.vector .utf8, j.listed (fun entry => entry.2.dumpPriority &&& dumpPriority.toBitVec ≠ 0)⟩]) := by
  simp only [lists, ask, ServiceManager.onTransact, ServiceManager.listServices, hlist, Bool.not_true,
    Bool.false_eq_true, if_false]
  rfl

theorem lists_refused (ipc : IPCThreadState) (world : World) (header : CallHeader) (dumpPriority : Int32)
    (hlist : world.selinux.canList (world.selinux.getCallingContext ipc) = false) :
    j.lists ipc world header [⟨.packed .int32, dumpPriority⟩] = (.fromExceptionCode (-1), []) := by
  simp only [lists, ask, ServiceManager.onTransact, ServiceManager.listServices, hlist, Bool.not_false, if_true]
  rfl

theorem listing_request (header : CallHeader) (dumpPriority : Int32) :
    (wireToken listing.interface header ++ Parcel.wireMessage [⟨.packed .int32, dumpPriority⟩]).length = 76 := by
  have hsize : Packed.size Int32 = 4 := rfl
  have hname : listing.interface.length = 26 := by decide
  have hargument : (Parcel.wireMessage [⟨.packed .int32, dumpPriority⟩]).length = 4 := rfl
  rw [List.length_append, hargument]
  simp only [wireToken, List.length_append, Packed.pack_length, hsize, wireUnits_length, hname]
  rfl

theorem listing_reply {names : List Bytes} (h : ∀ name ∈ names, isValidServiceName name = true) :
    (Method.wireReply ({}, [⟨.vector .utf8, names⟩])).length ≤ 8 + 260 * names.length := by
  have hnames := wireNames_length h
  have hstatus : (Wire.Status.wireStatus {}).length = 4 := rfl
  have hmessage : Parcel.wireMessage [⟨.vector .utf8, names⟩] = wire (.vector .utf8) names := List.append_nil _
  show (Wire.Status.wireStatus {} ++ Parcel.wireMessage [⟨.vector .utf8, names⟩]).length ≤ _
  rw [List.length_append, hstatus, hmessage]
  omega

end Journal

end BinderDownload.Registry
