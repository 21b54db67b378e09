import BinderDownload.Lib.Text

namespace BinderDownload.Vintf

open Text

inductive HalFormat
  | hidl | native | aidl
  deriving DecidableEq

structure ManifestInstance where
  mPackage : Bytes
  mInterface : Bytes
  mInstance : Bytes
  mUpdatableViaApex : Option Bytes
  deriving DecidableEq

def ManifestInstance.format (_ : ManifestInstance) : HalFormat := .aidl

structure HalManifest where
  mInstances : List ManifestInstance := []

def isBlank (c : UInt8) : Bool := (ascii " \t\r\n").contains c

def trimLine (s : Bytes) : Bytes := (s.dropWhile isBlank).rdropWhile isBlank

/-- What `std::getline` reads one after the other: a last line without an end counts when it is not empty. -/
def lines (text : Bytes) : List Bytes :=
  let parts := text.splitOn 10
  if parts.getLast? = some [] then parts.dropLast else parts

def parseLine (line : Bytes) : Option ManifestInstance :=
  match find 47 line with
  | none => none
  | some slash =>
    let fqName := line.take slash
    let rest := line.drop (slash + 1)
    let (rest, apex) := match find 64 rest with
      | none => (rest, none)
      | some pos => (rest.take pos, some (rest.drop (pos + 1)))
    match rfind 46 fqName with
    | none => none
    | some lastDot => some ⟨fqName.take lastDot, fqName.drop (lastDot + 1), rest, apex⟩

def isComment (line : Bytes) : Bool := line = [] ∨ line.head? = some 35

namespace HalManifest

def loadFrom (file : Option Bytes) : HalManifest where
  mInstances := ((file.map lines).getD []).filterMap (fun line =>
    let line := trimLine line
    if isComment line then none else parseLine line)

def hasAidlInstance (manifest : HalManifest) (package interface mInstance : Bytes) : Bool :=
  manifest.mInstances.any
    (fun mi => mi.mPackage = package ∧ mi.mInterface = interface ∧ mi.mInstance = mInstance)

def getAidlInstances (manifest : HalManifest) (package interface : Bytes) : List Bytes :=
  (manifest.mInstances.filter (fun mi => mi.mPackage = package ∧ mi.mInterface = interface)).map
    ManifestInstance.mInstance

end HalManifest

variable {α σ : Type}

def visit (func : σ → α → Bool × σ) (s : σ) : List α → Bool × σ
  | [] => (false, s)
  | x :: xs =>
    match func s x with
    | (true, s) => (true, s)
    | (false, s) => visit func s xs

def HalManifest.forEachInstance (manifest : HalManifest) (func : σ → ManifestInstance → Bool × σ) (s : σ) : σ :=
  (visit func s manifest.mInstances).2

structure VintfObject where
  device : HalManifest := {}
  framework : HalManifest := {}

def VintfObject.forEachManifest (vintf : VintfObject) (func : σ → HalManifest → Bool × σ) (s : σ) : Bool × σ :=
  visit func s [vintf.device, vintf.framework]

structure AidlName where
  package : Bytes
  iface : Bytes
  mInstance : Bytes
  deriving DecidableEq

def AidlName.fill (name : Bytes) : Option AidlName :=
  match find 47 name with
  | none => none
  | some firstSlash =>
    match rfindTo 46 firstSlash name with
    | none => none
    | some lastDot =>
      some ⟨name.take lastDot, (name.drop (lastDot + 1)).take (firstSlash - lastDot - 1), name.drop (firstSlash + 1)⟩

namespace VintfObject

def isVintfDeclared (vintf : VintfObject) (name : Bytes) : Bool :=
  match AidlName.fill name with
  | none => false
  | some aname =>
    (vintf.forEachManifest (fun _ manifest =>
      (manifest.hasAidlInstance aname.package aname.iface aname.mInstance, ())) ()).1

/-- The visitor of `getVintfUpdatableApex`: it asks to go on at an entry of another name. -/
def updatableVisitor (aname : AidlName) (updatableViaApex : Option Bytes) (mi : ManifestInstance) :
    Bool × Option Bytes :=
  if mi.format ≠ .aidl then (true, updatableViaApex)
  else if mi.mPackage ≠ aname.package then (true, updatableViaApex)
  else if mi.mInterface ≠ aname.iface then (true, updatableViaApex)
  else if mi.mInstance ≠ aname.mInstance then (true, updatableViaApex)
  else (false, mi.mUpdatableViaApex)

def getVintfUpdatableApex (vintf : VintfObject) (name : Bytes) : Option Bytes :=
  match AidlName.fill name with
  | none => none
  | some aname =>
    (vintf.forEachManifest (fun updatableViaApex manifest =>
      (false, manifest.forEachInstance (updatableVisitor aname) updatableViaApex)) none).2

def getVintfInstances (vintf : VintfObject) (interface : Bytes) : List Bytes :=
  match rfind 46 interface with
  | none => []
  | some lastDot =>
    let package := interface.take lastDot
    let iface := interface.drop (lastDot + 1)
    (vintf.forEachManifest (fun ret manifest => (false, ret ++ manifest.getAidlInstances package iface)) []).2

end VintfObject

structure QualifiedName extends AidlName where
  package_slash : 47 ∉ package
  iface_dot : 46 ∉ iface
  iface_slash : 47 ∉ iface

def AidlName.text (aname : AidlName) : Bytes := aname.package ++ 46 :: (aname.iface ++ 47 :: aname.mInstance)

theorem fill_slash {front : Bytes} (rear : Bytes) (h : 47 ∉ front) :
    AidlName.fill (front ++ 47 :: rear) =
      (rfind 46 front).map (fun lastDot => ⟨front.take lastDot, front.drop (lastDot + 1), rear⟩) := by
  rw [AidlName.fill, find_split 47 front rear h]
  simp only [rfindTo_split 46 47 front rear (by decide)]
  by_cases hdot : 46 ∈ front
  · obtain ⟨package, iface, rfl, hiface⟩ := split_last hdot
    rw [rfind_split 46 package iface hiface]
    simp only [Option.map_some, Option.some.injEq, AidlName.mk.injEq]
    refine ⟨?_, ?_, ?_⟩
    · rw [List.append_assoc, List.take_left' rfl, List.take_left' rfl]
    · rw [List.append_assoc, ← List.drop_drop, ← List.drop_drop, List.drop_left' rfl, List.drop_left' rfl]
      apply List.take_left'
      simp only [List.length_append, List.length_cons]
      omega
    · rw [← List.drop_drop, List.drop_left' rfl]
      rfl
  · rw [rfind_none 46 front hdot]
    rfl

theorem QualifiedName.fill_text (name : QualifiedName) : AidlName.fill name.text = some name.toAidlName := by
  have hfront : 47 ∉ name.package ++ 46 :: name.iface := by
    simp only [List.mem_append, List.mem_cons, not_or]
    exact ⟨name.package_slash, by decide, name.iface_slash⟩
  have htext : name.text = (name.package ++ 46 :: name.iface) ++ 47 :: name.mInstance := by
    simp [AidlName.text]
  rw [htext, fill_slash _ hfront, rfind_split 46 _ _ name.iface_dot]
  simp

theorem fill_some {name : Bytes} {aname : AidlName} (h : AidlName.fill name = some aname) : aname.text = name := by
  cases hf : find 47 name with
  | none => simp [AidlName.fill, hf] at h
  | some firstSlash =>
    obtain ⟨front, rear, rfl, hfront, -⟩ := find_some hf
    rw [fill_slash rear hfront] at h
    by_cases hdot : 46 ∈ front
    · obtain ⟨package, iface, rfl, hiface⟩ := split_last hdot
      rw [rfind_split 46 package iface hiface] at h
      rw [← Option.some.inj h]
      simp [AidlName.text]
    · rw [rfind_none 46 front hdot] at h
      simp at h

end BinderDownload.Vintf
