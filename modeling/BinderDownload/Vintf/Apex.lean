import BinderDownload.Vintf.Manifest

/-!
`forEachInstance` ends its walk on `true`, but the visitor of `getVintfUpdatableApex` answers `true` to go on.
-/

namespace BinderDownload.Vintf

open Text VintfObject

def ManifestInstance.Named (mi : ManifestInstance) (aname : AidlName) : Prop :=
  mi.mPackage = aname.package ∧ mi.mInterface = aname.iface ∧ mi.mInstance = aname.mInstance

instance (mi : ManifestInstance) (aname : AidlName) : Decidable (mi.Named aname) := inferInstanceAs (Decidable (_ ∧ _))

theorem updatableVisitor_named {aname : AidlName} {mi : ManifestInstance} (h : mi.Named aname) (apex : Option Bytes) :
    updatableVisitor aname apex mi = (false, mi.mUpdatableViaApex) := by
  obtain ⟨hp, hi, hn⟩ := h
  simp [updatableVisitor, ManifestInstance.format, hp, hi, hn]

theorem updatableVisitor_other {aname : AidlName} {mi : ManifestInstance} (h : ¬ mi.Named aname) (apex : Option Bytes) :
    updatableVisitor aname apex mi = (true, apex) := by
  unfold updatableVisitor
  split_ifs with hf hp hi hn
  · rfl
  · rfl
  · rfl
  · rfl
  · exact absurd ⟨not_not.mp hp, not_not.mp hi, not_not.mp hn⟩ h

def HalManifest.named (manifest : HalManifest) (aname : AidlName) : List ManifestInstance :=
  manifest.mInstances.filter (fun mi => mi.Named aname)

def HalManifest.front (manifest : HalManifest) (aname : AidlName) : Option ManifestInstance :=
  manifest.mInstances.head?.filter (fun mi => mi.Named aname)

theorem visit_unnamed {aname : AidlName} {mis : List ManifestInstance} (h : ∀ mi ∈ mis, ¬ mi.Named aname)
    (apex : Option Bytes) : (visit (updatableVisitor aname) apex mis).2 = apex := by
  cases mis with
  | nil => rfl
  | cons mi mis => rw [visit, updatableVisitor_other (h mi List.mem_cons_self)]

theorem forEachInstance_front {manifest : HalManifest} {aname : AidlName} (h : (manifest.named aname).length ≤ 1)
    (apex : Option Bytes) :
    manifest.forEachInstance (updatableVisitor aname) apex =
      ((manifest.front aname).map ManifestInstance.mUpdatableViaApex).getD apex := by
  obtain ⟨mis⟩ := manifest
  unfold HalManifest.forEachInstance HalManifest.front
  cases mis with
  | nil => rfl
  | cons mi mis =>
    by_cases hmi : mi.Named aname
    · have hrest : ∀ other ∈ mis, ¬ other.Named aname := by
        intro other hother hnamed
        have hmem : other ∈ mis.filter (fun mi => mi.Named aname) := by simp [hother, hnamed]
        have hpos := List.length_pos_of_mem hmem
        simp only [HalManifest.named, List.filter_cons, hmi, decide_true, if_true, List.length_cons] at h
        omega
      rw [visit, updatableVisitor_named hmi, visit_unnamed hrest]
      simp [Option.filter_some, hmi]
    · rw [visit, updatableVisitor_other hmi]
      simp [Option.filter_some, hmi]

theorem getVintfUpdatableApex_fill (vintf : VintfObject) (name : QualifiedName) :
    vintf.getVintfUpdatableApex name.text = vintf.framework.forEachInstance (updatableVisitor name.toAidlName)
      (vintf.device.forEachInstance (updatableVisitor name.toAidlName) none) := by
  simp [getVintfUpdatableApex, name.fill_text, forEachManifest, visit]

def VintfObject.named (vintf : VintfObject) (aname : AidlName) : List ManifestInstance :=
  vintf.device.named aname ++ vintf.framework.named aname

theorem getVintfUpdatableApex_front {vintf : VintfObject} {name : QualifiedName}
    (h : (vintf.named name.toAidlName).length ≤ 1) :
    vintf.getVintfUpdatableApex name.text =
      ((vintf.framework.front name.toAidlName).or (vintf.device.front name.toAidlName)).bind
        ManifestInstance.mUpdatableViaApex := by
  rw [VintfObject.named, List.length_append] at h
  rw [getVintfUpdatableApex_fill, forEachInstance_front (by omega), forEachInstance_front (by omega)]
  cases vintf.framework.front name.toAidlName with
  | none =>
    cases vintf.device.front name.toAidlName with
    | none => rfl
    | some mi => rfl
  | some mi => rfl

theorem front_mem {manifest : HalManifest} {aname : AidlName} {mi : ManifestInstance}
    (h : manifest.front aname = some mi) : mi ∈ manifest.named aname := by
  obtain ⟨hhead, hnamed⟩ := Option.filter_eq_some_iff.mp h
  simp only [HalManifest.named, List.mem_filter]
  exact ⟨List.mem_of_mem_head? hhead, hnamed⟩

/-- An entry stands first in one of the manifests. -/
def VintfObject.Leads (vintf : VintfObject) (mi : ManifestInstance) : Prop :=
  vintf.device.mInstances.head? = some mi ∨ vintf.framework.mInstances.head? = some mi

theorem getVintfUpdatableApex_single {vintf : VintfObject} {name : QualifiedName} {mi : ManifestInstance}
    (h : vintf.named name.toAidlName = [mi]) :
    vintf.getVintfUpdatableApex name.text = mi.mUpdatableViaApex ↔ mi.mUpdatableViaApex = none ∨ vintf.Leads mi := by
  have hmi : mi.Named name.toAidlName := by
    have hmem : mi ∈ vintf.named name.toAidlName := by simp [h]
    simp only [VintfObject.named, HalManifest.named, List.mem_append, List.mem_filter] at hmem
    rcases hmem with hmem | hmem
    · exact of_decide_eq_true hmem.2
    · exact of_decide_eq_true hmem.2
  have honly (manifest : HalManifest) :
      manifest.front name.toAidlName = some mi ↔ manifest.mInstances.head? = some mi := by
    simp [HalManifest.front, Option.filter_eq_some_iff, hmi]
  have hfront (manifest : HalManifest) (hmanifest : manifest = vintf.device ∨ manifest = vintf.framework)
      (hne : manifest.mInstances.head? ≠ some mi) : manifest.front name.toAidlName = none := by
    cases hf : manifest.front name.toAidlName with
    | none => rfl
    | some other =>
      have hmem : other ∈ vintf.named name.toAidlName := by
        rw [VintfObject.named, List.mem_append]
        rcases hmanifest with rfl | rfl
        · exact .inl (front_mem hf)
        · exact .inr (front_mem hf)
      rw [h, List.mem_singleton] at hmem
      rw [hmem] at hf
      exact absurd ((honly manifest).mp hf) hne
  rw [getVintfUpdatableApex_front (by simp [h]), VintfObject.Leads]
  by_cases hframework : vintf.framework.mInstances.head? = some mi
  · rw [(honly _).mpr hframework]
    simp [hframework]
  · rw [hfront _ (.inr rfl) hframework]
    by_cases hdevice : vintf.device.mInstances.head? = some mi
    · rw [(honly _).mpr hdevice]
      simp [hdevice]
    · rw [hfront _ (.inl rfl) hdevice]
      simp [hframework, hdevice, eq_comm]

def VintfObject.Answers (vintf : VintfObject) (name : QualifiedName) : Prop :=
  (∀ mi, vintf.named name.toAidlName = [mi] → vintf.getVintfUpdatableApex name.text = mi.mUpdatableViaApex) ∧
    (vintf.named name.toAidlName = [] → vintf.getVintfUpdatableApex name.text = none)

theorem updatableApex_answers (vintf : VintfObject) (name : QualifiedName) :
    vintf.Answers name ↔
      ∀ mi, vintf.named name.toAidlName = [mi] → mi.mUpdatableViaApex = none ∨ vintf.Leads mi := by
  constructor
  · rintro ⟨hone, -⟩ mi hmi
    exact (getVintfUpdatableApex_single hmi).mp (hone mi hmi)
  · intro h
    refine ⟨fun mi hmi => (getVintfUpdatableApex_single hmi).mpr (h mi hmi), fun hnone => ?_⟩
    rw [getVintfUpdatableApex_front (by simp [hnone])]
    rw [VintfObject.named, List.append_eq_nil_iff] at hnone
    have hfront (manifest : HalManifest) (hempty : manifest.named name.toAidlName = []) :
        manifest.front name.toAidlName = none := by
      cases hf : manifest.front name.toAidlName with
      | none => rfl
      | some mi =>
        have hmem := front_mem hf
        rw [hempty] at hmem
        exact absurd hmem List.not_mem_nil
    rw [hfront _ hnone.1, hfront _ hnone.2]
    rfl

theorem updatableApex_missed :
    let name : QualifiedName := ⟨⟨ascii "some.pkg", ascii "IBar", ascii "default"⟩, by decide, by decide, by decide⟩
    let foo : ManifestInstance := ⟨ascii "some.pkg", ascii "IFoo", ascii "default", none⟩
    let bar : ManifestInstance := ⟨ascii "some.pkg", ascii "IBar", ascii "default", some (ascii "com.some.apex")⟩
    let vintf : VintfObject := { device := ⟨[foo, bar]⟩ }
    vintf.named name.toAidlName = [bar] ∧ vintf.getVintfUpdatableApex (ascii "some.pkg.IBar/default") = none ∧
      ¬ vintf.Answers name := by
  intro name foo bar vintf
  have hnamed : vintf.named name.toAidlName = [bar] := by decide +kernel
  have hnone : vintf.getVintfUpdatableApex name.text = none := by decide +kernel
  refine ⟨hnamed, hnone, fun hanswers => ?_⟩
  have hbar := hanswers.1 bar hnamed
  rw [hnone] at hbar
  exact absurd hbar (by decide)

end BinderDownload.Vintf
