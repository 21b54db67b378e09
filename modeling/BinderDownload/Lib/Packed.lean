import BinderDownload.Lib.Text

namespace BinderDownload

open Text

def leBytes : ℕ → ℕ → Bytes
  | 0, _ => []
  | size + 1, n => UInt8.ofNat (n % 256) :: leBytes size (n / 256)

def leNat : Bytes → ℕ
  | [] => 0
  | b :: s => b.toNat + 256 * leNat s

@[simp] theorem leBytes_length (size n : ℕ) : (leBytes size n).length = size := by
  induction size generalizing n with
  | zero => rfl
  | succ size ih => rw [leBytes, List.length_cons, ih]

theorem leNat_leBytes {size n : ℕ} (h : n < 256 ^ size) : leNat (leBytes size n) = n := by
  induction size generalizing n with
  | zero =>
    rw [pow_zero] at h
    rw [leBytes, leNat]
    omega
  | succ size ih =>
    rw [pow_succ] at h
    rw [leBytes, leNat, ih (Nat.div_lt_of_lt_mul (by omega)), UInt8.toNat_ofNat']
    omega

class Packed (α : Type) where
  size : ℕ
  bits : α → ℕ
  ofBits : ℕ → α
  bits_lt : ∀ a, bits a < 256 ^ size
  ofBits_bits : ∀ a, ofBits (bits a) = a
  size_pos : 0 < size

namespace Packed

instance : Packed UInt8 := ⟨1, UInt8.toNat, UInt8.ofNat, UInt8.toNat_lt, fun _ => UInt8.ofNat_toNat, Nat.one_pos⟩

instance : Packed UInt16 := ⟨2, UInt16.toNat, UInt16.ofNat, UInt16.toNat_lt, fun _ => UInt16.ofNat_toNat, Nat.two_pos⟩

instance : Packed UInt32 :=
  ⟨4, UInt32.toNat, UInt32.ofNat, UInt32.toNat_lt, fun _ => UInt32.ofNat_toNat, Nat.succ_pos 3⟩

instance : Packed UInt64 :=
  ⟨8, UInt64.toNat, UInt64.ofNat, UInt64.toNat_lt, fun _ => UInt64.ofNat_toNat, Nat.succ_pos 7⟩

instance : Packed Int8 :=
  ⟨1, fun a => a.toUInt8.toNat, fun n => (UInt8.ofNat n).toInt8, fun a => a.toUInt8.toNat_lt, fun a => by simp,
    Nat.one_pos⟩

instance : Packed Int32 :=
  ⟨4, fun a => a.toUInt32.toNat, fun n => (UInt32.ofNat n).toInt32, fun a => a.toUInt32.toNat_lt, fun a => by simp,
    Nat.succ_pos 3⟩

instance : Packed Int64 :=
  ⟨8, fun a => a.toUInt64.toNat, fun n => (UInt64.ofNat n).toInt64, fun a => a.toUInt64.toNat_lt, fun a => by simp,
    Nat.succ_pos 7⟩

variable {α : Type} [Packed α]

def pack (a : α) : Bytes := leBytes (size α) (bits a)

def unpack (s : Bytes) : α := ofBits (leNat s)

@[simp] theorem pack_length (a : α) : (pack a).length = size α := leBytes_length _ _

@[simp] theorem unpack_pack (a : α) : unpack (pack a) = a := by
  rw [unpack, pack, leNat_leBytes (bits_lt a), ofBits_bits]

def packAll (as : List α) : Bytes := as.flatMap pack

variable (α) in
def unpackAll : ℕ → Bytes → List α
  | 0, _ => []
  | count + 1, s => unpack (s.take (size α)) :: unpackAll count (s.drop (size α))

@[simp] theorem packAll_length (as : List α) : (packAll as).length = as.length * size α := by
  induction as with
  | nil => simp [packAll]
  | cons a as ih =>
    rw [packAll, List.flatMap_cons, ← packAll, List.length_append, pack_length, ih, List.length_cons, Nat.succ_mul,
      Nat.add_comm]

@[simp] theorem unpackAll_length (count : ℕ) (s : Bytes) : (unpackAll α count s).length = count := by
  induction count generalizing s with
  | zero => rfl
  | succ count ih => rw [unpackAll, List.length_cons, ih]

@[simp] theorem unpackAll_packAll (as : List α) : unpackAll α as.length (packAll as) = as := by
  induction as with
  | nil => rfl
  | cons a as ih =>
    have hcut : (packAll (a :: as)).take (size α) = pack a := by
      rw [packAll, List.flatMap_cons]
      exact List.take_left' (pack_length a)
    have hrest : (packAll (a :: as)).drop (size α) = packAll as := by
      rw [packAll, List.flatMap_cons]
      exact List.drop_left' (pack_length a)
    rw [List.length_cons, unpackAll, hcut, hrest, unpack_pack, ih]

end Packed

end BinderDownload
