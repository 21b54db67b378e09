import BinderDownload.Vintf.Apex

namespace BinderDownload.Vintf

open Text VintfObject

def entryOf (line : Bytes) : Bytes :=
  match find 47 line with
  | none => line
  | some slash =>
    match findFrom 64 (slash + 1) line with
    | none => line
    | some pos => line.take pos

def ManifestInstance.aname (mi : ManifestInstance) : AidlName := ⟨mi.mPackage, mi.mInterface, mi.mInstance⟩

theorem entryOf_slash {front : Bytes} (rear : Bytes) (h : 47 ∉ front) :
    entryOf (front ++ 47 :: rear) =
      front ++ 47 :: (match find 64 rear with
        | none => rear
        | some pos => rear.take pos) := by
  have hdrop : (front ++ 47 :: rear).drop (front.length + 1) = rear := by
    rw [← List.drop_drop, List.drop_left' rfl]
    rfl
  rw [entryOf, find_split 47 front rear h]
  simp only [findFrom, hdrop]
  cases find 64 rear with
  | none => rfl
  | some pos =>
    simp only [Option.map_some]
    rw [List.take_append, List.take_of_length_le (by omega),
      show pos + (front.length + 1) - front.length = pos + 1 by omega,
      List.take_succ_cons]

theorem parseLine_fill (line : Bytes) : (parseLine line).map ManifestInstance.aname = AidlName.fill (entryOf line) := by
  cases hf : find 47 line with
  | none => simp [parseLine, entryOf, AidlName.fill, hf]
  | some slash =>
    obtain ⟨front, rear, rfl, hfront, rfl⟩ := find_some hf
    have hdrop : (front ++ 47 :: rear).drop (front.length + 1) = rear := by
      rw [← List.drop_drop, List.drop_left' rfl]
      rfl
    rw [entryOf_slash rear hfront, fill_slash _ hfront, parseLine, hf]
    simp only [List.take_left' rfl, hdrop]
    cases rfind 46 front with
    | none => rfl
    | some lastDot =>
      cases find 64 rear with
      | none => rfl
      | some pos => rfl

theorem mem_loadFrom (text : Bytes) (mi : ManifestInstance) :
    mi ∈ (HalManifest.loadFrom (some text)).mInstances ↔
      ∃ line ∈ lines text, isComment (trimLine line) = false ∧ parseLine (trimLine line) = some mi := by
  simp only [HalManifest.loadFrom, Option.map_some, Option.getD_some, List.mem_filterMap]
  constructor
  · rintro ⟨line, hline, h⟩
    split_ifs at h with hc
    exact ⟨line, hline, by simpa using hc, h⟩
  · rintro ⟨line, hline, hc, h⟩
    exact ⟨line, hline, by simp [hc, h]⟩

theorem hasAidlInstance_iff (manifest : HalManifest) (aname : AidlName) :
    manifest.hasAidlInstance aname.package aname.iface aname.mInstance = true ↔
      ∃ mi ∈ manifest.mInstances, mi.aname = aname := by
  simp only [HalManifest.hasAidlInstance, List.any_eq_true, decide_eq_true_eq]
  constructor
  · rintro ⟨mi, hmi, hp, hi, hn⟩
    exact ⟨mi, hmi, by rw [ManifestInstance.aname, hp, hi, hn]⟩
  · rintro ⟨mi, hmi, rfl⟩
    exact ⟨mi, hmi, rfl, rfl, rfl⟩

def VintfObject.entries (vintf : VintfObject) : List ManifestInstance :=
  vintf.device.mInstances ++ vintf.framework.mInstances

theorem isVintfDeclared_iff (vintf : VintfObject) (name : Bytes) :
    vintf.isVintfDeclared name = true ↔
      ∃ aname, AidlName.fill name = some aname ∧ ∃ mi ∈ vintf.entries, mi.aname = aname := by
  unfold isVintfDeclared
  cases hf : AidlName.fill name with
  | none => simp
  | some aname =>
    have hdevice := hasAidlInstance_iff vintf.device aname
    have hframework := hasAidlInstance_iff vintf.framework aname
    simp only [forEachManifest, visit, entries, List.mem_append, Option.some.injEq, exists_eq_left']
    cases hd : vintf.device.hasAidlInstance aname.package aname.iface aname.mInstance with
    | true =>
      obtain ⟨mi, hmi, hname⟩ := hdevice.mp hd
      simp only [true_iff]
      exact ⟨mi, .inl hmi, hname⟩
    | false =>
      have hno : ¬ ∃ mi ∈ vintf.device.mInstances, mi.aname = aname := by
        intro hmi
        rw [hdevice.mpr hmi] at hd
        exact absurd hd (by decide)
      cases hw : vintf.framework.hasAidlInstance aname.package aname.iface aname.mInstance with
      | true =>
        obtain ⟨mi, hmi, hname⟩ := hframework.mp hw
        simp only [true_iff]
        exact ⟨mi, .inr hmi, hname⟩
      | false =>
        simp only [Bool.false_eq_true, false_iff]
        rintro ⟨mi, hmi | hmi, hname⟩
        · exact hno ⟨mi, hmi, hname⟩
        · rw [hframework.mpr ⟨mi, hmi, hname⟩] at hw
          exact absurd hw (by decide)

def Shaped (name : Bytes) : Prop := ∃ front rear, name = front ++ 47 :: rear ∧ 47 ∉ front ∧ 46 ∈ front

theorem fill_isSome (name : Bytes) : (AidlName.fill name).isSome ↔ Shaped name := by
  constructor
  · intro h
    cases hf : find 47 name with
    | none => simp [AidlName.fill, hf] at h
    | some firstSlash =>
      obtain ⟨front, rear, rfl, hfront, -⟩ := find_some hf
      refine ⟨front, rear, rfl, hfront, ?_⟩
      by_contra hdot
      simp [fill_slash rear hfront, rfind_none 46 front hdot] at h
  · rintro ⟨front, rear, rfl, hfront, hdot⟩
    obtain ⟨package, iface, rfl, hiface⟩ := split_last hdot
    rw [fill_slash rear hfront, rfind_split 46 package iface hiface]
    rfl

def Declares (text name : Bytes) : Prop :=
  ∃ line ∈ lines text, (trimLine line).head? ≠ some 35 ∧ entryOf (trimLine line) = name

theorem declares_iff (text name : Bytes) :
    (∃ aname, AidlName.fill name = some aname ∧
        ∃ mi ∈ (HalManifest.loadFrom (some text)).mInstances, mi.aname = aname) ↔
      Shaped name ∧ Declares text name := by
  constructor
  · rintro ⟨aname, hfill, mi, hmi, rfl⟩
    obtain ⟨line, hline, hc, hparse⟩ := (mem_loadFrom text mi).mp hmi
    have hentry := parseLine_fill (trimLine line)
    rw [hparse, Option.map_some] at hentry
    refine ⟨(fill_isSome name).mp (by rw [hfill]; rfl), line, hline, ?_, ?_⟩
    · simp only [isComment, decide_eq_false_iff_not, not_or] at hc
      exact hc.2
    · rw [← fill_some hentry.symm, fill_some hfill]
  · rintro ⟨hshaped, line, hline, hc, hentry⟩
    obtain ⟨aname, hfill⟩ := Option.isSome_iff_exists.mp ((fill_isSome name).mpr hshaped)
    have hparse := parseLine_fill (trimLine line)
    rw [hentry, hfill] at hparse
    obtain ⟨mi, hmi, haname⟩ := Option.map_eq_some_iff.mp hparse
    refine ⟨aname, hfill, mi, (mem_loadFrom text mi).mpr ⟨line, hline, ?_, hmi⟩, haname⟩
    simp only [isComment, decide_eq_false_iff_not, not_or]
    refine ⟨fun hempty => ?_, hc⟩
    rw [hempty] at hmi
    simp [parseLine, find] at hmi

theorem mem_getVintfInstances (vintf : VintfObject) {interface : Bytes} (h : 47 ∉ interface) (mInstance : Bytes) :
    mInstance ∈ vintf.getVintfInstances interface ↔ vintf.isVintfDeclared (interface ++ 47 :: mInstance) = true := by
  rw [isVintfDeclared_iff, fill_slash mInstance h]
  unfold getVintfInstances
  cases rfind 46 interface with
  | none => simp
  | some lastDot =>
    simp only [forEachManifest, visit, HalManifest.getAidlInstances, List.nil_append, Option.map_some,
      Option.some.injEq, exists_eq_left', entries, ← List.map_append, ← List.filter_append, List.mem_map,
      List.mem_filter, decide_eq_true_eq, ManifestInstance.aname, AidlName.mk.injEq]
    constructor
    · rintro ⟨mi, ⟨hmi, hp, hi⟩, hn⟩
      exact ⟨mi, hmi, hp, hi, hn⟩
    · rintro ⟨mi, hmi, hp, hi, hn⟩
      exact ⟨mi, ⟨hmi, hp, hi⟩, hn⟩

theorem declared_agrees (text : Bytes) (vintf : VintfObject)
    (h : vintf.entries = (HalManifest.loadFrom (some text)).mInstances) :
    (∀ name, vintf.isVintfDeclared name = true ↔ Shaped name ∧ Declares text name) ∧
      ∀ interface mInstance, 47 ∉ interface →
        (mInstance ∈ vintf.getVintfInstances interface ↔
          vintf.isVintfDeclared (interface ++ 47 :: mInstance) = true) := by
  refine ⟨fun name => ?_, fun interface mInstance hslash => mem_getVintfInstances vintf hslash mInstance⟩
  rw [isVintfDeclared_iff, h]
  exact declares_iff text name

theorem declared_agrees_foo :
    (Shaped (ascii "p.IFoo/default") ∧ Declares (ascii "p.IFoo/default@apex\n") (ascii "p.IFoo/default")) ∧
      ascii "default" ∈
        (VintfObject.mk (HalManifest.loadFrom (some (ascii "p.IFoo/default@apex\n"))) {}).getVintfInstances
          (ascii "p.IFoo") := by
  have h := declared_agrees (ascii "p.IFoo/default@apex\n")
    ⟨HalManifest.loadFrom (some (ascii "p.IFoo/default@apex\n")), {}⟩ (by simp [entries])
  exact ⟨(h.1 _).mp (by decide), (h.2 _ _ (by decide)).mpr (by decide)⟩

end BinderDownload.Vintf
