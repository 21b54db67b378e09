import Mathlib

namespace BinderDownload

def Fits (n : ℤ) : Prop := -2 ^ 63 ≤ n ∧ n < 2 ^ 63

inductive Op
  | add (a b : ℤ)
  | sub (a b : ℤ)
  | mul (a b : ℤ)
  | div (a b : ℤ)
  deriving DecidableEq

def Op.left : Op → ℤ
  | .add a _ | .sub a _ | .mul a _ | .div a _ => a

def Op.value : Op → ℤ
  | .add a b => a + b
  | .sub a b => a - b
  | .mul a b => a * b
  | .div a b => a.tdiv b

def Op.Sound : Op → Prop
  | .add a b => Fits (a + b)
  | .sub a b => Fits (a - b)
  | .mul a b => Fits (a * b)
  | .div a b => b ≠ 0 ∧ Fits (a.tdiv b)

section Fits

variable {a b bound : ℤ}

theorem fits_of_nonneg (h : 0 ≤ a) (hlt : a < 2 ^ 63) : Fits a := ⟨by omega, hlt⟩

theorem sub_sound (hb : 0 ≤ b) (hle : b ≤ a) (ha : a < 2 ^ 63) : (Op.sub a b).Sound :=
  fits_of_nonneg (by omega) (by omega)

theorem div_sound (ha : Fits a) (hb : 0 < b) : (Op.div a b).Sound := by
  refine ⟨hb.ne', ?_⟩
  obtain ⟨hlow, hhigh⟩ := ha
  rcases le_total 0 a with hpos | hneg
  · have hle : a.tdiv b ≤ a := Int.tdiv_le_self b hpos
    exact fits_of_nonneg (Int.tdiv_nonneg hpos hb.le) (by omega)
  · have hle : (-a).tdiv b ≤ -a := Int.tdiv_le_self b (by omega)
    have hnonneg : 0 ≤ (-a).tdiv b := Int.tdiv_nonneg (by omega) hb.le
    rw [Int.neg_tdiv] at hle hnonneg
    exact ⟨by omega, by omega⟩

theorem scaled_difference_sound {factor : ℤ} (hfactor : 0 ≤ factor) (hlow : -bound ≤ a - b) (hhigh : a - b ≤ bound)
    (hbound : bound * factor < 2 ^ 63) : (Op.mul (a - b) factor).Sound := by
  have hlow' := Int.mul_le_mul_of_nonneg_right hlow hfactor
  have hhigh' := Int.mul_le_mul_of_nonneg_right hhigh hfactor
  rw [Int.neg_mul] at hlow'
  exact ⟨by omega, by omega⟩

end Fits

end BinderDownload
