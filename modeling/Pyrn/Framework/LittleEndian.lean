import Mathlib.Data.List.Basic
import Mathlib.Algebra.Ring.Nat
import Mathlib.Data.Int.ModEq
import Mathlib.Tactic.Ring

/-!
# Little-endian words

Fixed-width byte images of natural numbers and of two's-complement integers, with the two
round trips between a number and its image. The signed reading of a number is told by its range
and its residue, and by the high bit of the last byte.
-/

namespace LittleEndian

/-- The `width` low-order bytes of `value`, least significant first. -/
def toBytes : Nat → Nat → List UInt8
  | 0, _ => []
  | width + 1, value => UInt8.ofNat value :: toBytes width (value / 256)

/-- The number a byte image stands for. -/
def ofBytes : List UInt8 → Nat
  | [] => 0
  | byte :: bytes => byte.toNat + 256 * ofBytes bytes

/-- The two's-complement reading of a `width`-byte number. -/
def signed (width value : Nat) : Int :=
  if value < 2 ^ (8 * width - 1) then value else value - 2 ^ (8 * width)

@[simp] theorem toBytes_length (width value : Nat) : (toBytes width value).length = width := by
  induction width generalizing value with
  | zero => rfl
  | succ width ih => simp [toBytes,ih]

@[simp] theorem ofBytes_nil : ofBytes [] = 0 := rfl

@[simp] theorem ofBytes_cons (byte : UInt8) (bytes : List UInt8) :
    ofBytes (byte :: bytes) = byte.toNat + 256 * ofBytes bytes := rfl

theorem ofBytes_toBytes (width value : Nat) :
    ofBytes (toBytes width value) = value % 256 ^ width := by
  induction width generalizing value with
  | zero => simp [toBytes,Nat.mod_one]
  | succ width ih =>
    have hlow : (UInt8.ofNat value).toNat = value % 256 := UInt8.toNat_ofNat'
    rw [toBytes,ofBytes_cons,ih,hlow,pow_succ',Nat.mod_mul]

theorem ofBytes_toBytes_of_lt {width value : Nat} (h : value < 256 ^ width) :
    ofBytes (toBytes width value) = value := by
  rw [ofBytes_toBytes,Nat.mod_eq_of_lt h]

theorem ofBytes_lt (bytes : List UInt8) : ofBytes bytes < 256 ^ bytes.length := by
  induction bytes with
  | nil => simp
  | cons byte bytes ih =>
    have hbyte := byte.toNat_lt
    rw [ofBytes_cons,List.length_cons,pow_succ']
    omega

/-- A bit of a number is a bit of one byte of its image. -/
theorem testBit_ofBytes (bytes : List UInt8) (p : Nat) :
    (ofBytes bytes).testBit p = (bytes.getD (p / 8) 0).toNat.testBit (p % 8) := by
  induction bytes generalizing p with
  | nil => simp
  | cons byte bytes ih =>
    have hsum : ofBytes (byte :: bytes) = 2 ^ 8 * ofBytes bytes + byte.toNat := by
      rw [ofBytes_cons]
      omega
    rw [hsum,Nat.testBit_two_pow_mul_add _ byte.toNat_lt]
    by_cases hlow : p < 8
    · rw [if_pos hlow,Nat.div_eq_of_lt hlow,Nat.mod_eq_of_lt hlow,List.getD_cons_zero]
    · have hnext : p / 8 = (p - 8) / 8 + 1 := by omega
      have hsame : p % 8 = (p - 8) % 8 := by omega
      rw [if_neg hlow,ih,hnext,hsame,List.getD_cons_succ]

theorem toBytes_ofBytes (bytes : List UInt8) : toBytes bytes.length (ofBytes bytes) = bytes := by
  induction bytes with
  | nil => rfl
  | cons byte bytes ih =>
    have hbyte := byte.toNat_lt
    have hlow : UInt8.ofNat (byte.toNat + 256 * ofBytes bytes) = byte := by
      apply UInt8.toNat_inj.mp
      rw [UInt8.toNat_ofNat']
      omega
    have hhigh : (byte.toNat + 256 * ofBytes bytes) / 256 = ofBytes bytes := by omega
    rw [List.length_cons,ofBytes_cons,toBytes,hlow,hhigh,ih]

theorem ofBytes_concat (bytes : List UInt8) (last : UInt8) :
    ofBytes (bytes ++ [last]) = ofBytes bytes + 256 ^ bytes.length * last.toNat := by
  induction bytes with
  | nil => simp
  | cons byte bytes ih =>
    rw [List.cons_append,ofBytes_cons,ofBytes_cons,ih,List.length_cons,pow_succ']
    ring

/-- The last byte decides in which half of the range a number lies. -/
theorem ofBytes_concat_lt_half (bytes : List UInt8) (last : UInt8) :
    ofBytes (bytes ++ [last]) < 2 ^ (8 * (bytes.length + 1) - 1) ↔ last.toNat < 128 := by
  have hlow := ofBytes_lt bytes
  have hhalf : 2 ^ (8 * (bytes.length + 1) - 1) = 256 ^ bytes.length * 128 := by
    have hexponent : 8 * (bytes.length + 1) - 1 = 8 * bytes.length + 7 := by omega
    rw [hexponent,pow_add,pow_mul]
    rfl
  rw [ofBytes_concat,hhalf]
  constructor
  · intro hlt
    by_contra hlast
    have hmul : 256 ^ bytes.length * 128 ≤ 256 ^ bytes.length * last.toNat :=
      Nat.mul_le_mul_left _ (by omega)
    omega
  · intro hlast
    have hmul : 256 ^ bytes.length * (last.toNat + 1) ≤ 256 ^ bytes.length * 128 :=
      Nat.mul_le_mul_left _ (by omega)
    rw [Nat.mul_succ] at hmul
    omega

theorem two_pow_half {width : Nat} (hwidth : 0 < width) :
    2 ^ (8 * width) = 2 * 2 ^ (8 * width - 1) := by
  rw [← pow_succ',Nat.sub_add_cancel (by omega)]

theorem signed_range {width value : Nat} (hwidth : 0 < width) (hvalue : value < 2 ^ (8 * width)) :
    -2 ^ (8 * width - 1) ≤ signed width value ∧ signed width value < 2 ^ (8 * width - 1) := by
  have hhalf := two_pow_half hwidth
  rw [hhalf] at hvalue
  have hvalue' : (value : Int) < 2 * 2 ^ (8 * width - 1) := by exact_mod_cast hvalue
  have hrange : (2 ^ (8 * width) : Int) = 2 * 2 ^ (8 * width - 1) := by exact_mod_cast hhalf
  rw [signed,hrange]
  split_ifs with hlow
  · have hlow' : (value : Int) < 2 ^ (8 * width - 1) := by exact_mod_cast hlow
    omega
  · have hhigh : (2 ^ (8 * width - 1) : Int) ≤ value := by exact_mod_cast Nat.le_of_not_lt hlow
    omega

theorem signed_modEq (width value : Nat) : signed width value ≡ value [ZMOD 2 ^ (8 * width)] := by
  rw [signed]
  split_ifs
  · exact Int.ModEq.refl _
  · exact Int.sub_modulus_modEq_iff.mpr (Int.ModEq.refl _)

/-- The two's-complement reading is the only number of the signed range in its residue class. -/
theorem eq_signed_iff {width value : Nat} (hwidth : 0 < width) (hvalue : value < 2 ^ (8 * width))
    (v : Int) : (-2 ^ (8 * width - 1) ≤ v ∧ v < 2 ^ (8 * width - 1) ∧
      v ≡ value [ZMOD 2 ^ (8 * width)]) ↔ v = signed width value := by
  obtain ⟨hleast,hbelow⟩ := signed_range hwidth hvalue
  have hclass := signed_modEq width value
  constructor
  · rintro ⟨hv,hv',hmod⟩
    have hrange : (2 ^ (8 * width) : Int) = 2 * 2 ^ (8 * width - 1) := by
      exact_mod_cast two_pow_half hwidth
    have hdvd := (hclass.trans hmod.symm).dvd
    have hsmall : |v - signed width value| < 2 ^ (8 * width) := by
      rw [abs_lt,hrange]
      omega
    exact Int.sub_eq_zero.mp (Int.eq_zero_of_abs_lt_dvd hdvd hsmall)
  · rintro rfl
    exact ⟨hleast,hbelow,hclass⟩

end LittleEndian
