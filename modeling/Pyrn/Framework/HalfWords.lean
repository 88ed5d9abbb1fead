import Mathlib.Tactic.IntervalCases
import Mathlib.Data.BitVec
import Mathlib.Order.Defs.LinearOrder

/-!
# Words of two halves

A memory of 32-bit words is read as a sequence of 16-bit entries, the upper half of a word before
its lower half. Every operation on words is told by what it does to the two halves.
-/

namespace HalfWords

abbrev Word := BitVec 32

abbrev Half := BitVec 16

def upper (w : Word) : Half := w.extractLsb' 16 16

def lower (w : Word) : Half := w.extractLsb' 0 16

/-- Halves are compared as unsigned numbers. -/
instance : LinearOrder Half where
  le_refl x := Nat.le_refl x.toNat
  le_trans _ _ _ := Nat.le_trans
  lt_iff_le_not_ge x y := @Nat.lt_iff_le_and_not_ge x.toNat y.toNat
  le_antisymm _ _ := BitVec.le_antisymm
  le_total := BitVec.le_total
  toDecidableLE := inferInstance

/-- A half as an unsigned word. -/
def wide (e : Half) : Word := e.setWidth 32

section Halves

variable (w x y : Word) (e f : Half)

theorem getLsbD_upper (i : Nat) :
    (upper w).getLsbD i = (decide (i < 16) && w.getLsbD (16 + i)) := by
  simp [upper]

theorem getLsbD_lower (i : Nat) : (lower w).getLsbD i = (decide (i < 16) && w.getLsbD i) := by
  simp [lower]

theorem ext_halves {x y : Word} (hupper : upper x = upper y) (hlower : lower x = lower y) :
    x = y := by
  apply BitVec.eq_of_getLsbD_eq
  intro i hi
  by_cases hlow : i < 16
  · have hbit := congrArg (fun v : Half => v.getLsbD i) hlower
    rwa [getLsbD_lower,getLsbD_lower,decide_eq_true hlow,Bool.true_and,Bool.true_and] at hbit
  · have hbit := congrArg (fun v : Half => v.getLsbD (i - 16)) hupper
    have hback : 16 + (i - 16) = i := by omega
    have hlt : i - 16 < 16 := by omega
    rwa [getLsbD_upper,getLsbD_upper,decide_eq_true hlt,Bool.true_and,Bool.true_and,hback]
      at hbit

@[simp] theorem upper_or : upper (x ||| y) = upper x ||| upper y := by
  simp [upper,BitVec.extractLsb'_or]

@[simp] theorem lower_or : lower (x ||| y) = lower x ||| lower y := by
  simp [lower,BitVec.extractLsb'_or]

@[simp] theorem upper_and : upper (x &&& y) = upper x &&& upper y := by
  simp [upper,BitVec.extractLsb'_and]

@[simp] theorem lower_and : lower (x &&& y) = lower x &&& lower y := by
  simp [lower,BitVec.extractLsb'_and]

@[simp] theorem upper_wide : upper (wide e) = 0#16 := by
  ext i hi
  simp [upper,wide]

@[simp] theorem lower_wide : lower (wide e) = e := by
  apply BitVec.eq_of_getLsbD_eq
  intro i hi
  simp only [lower,wide,BitVec.getLsbD_extractLsb',BitVec.getLsbD_setWidth,Nat.zero_add,hi,
    decide_true,Bool.true_and]
  rw [decide_eq_true (by omega),Bool.true_and]

@[simp] theorem upper_shiftLeft : upper (w <<< 16) = lower w := by
  ext i hi
  simp [lower,upper]
  omega

@[simp] theorem lower_shiftLeft : lower (w <<< 16) = 0#16 := by
  ext i hi
  simp [lower,hi]

@[simp] theorem upper_ushiftRight : upper (w >>> 16) = 0#16 := by
  ext i hi
  simp only [upper,BitVec.getElem_extractLsb',BitVec.getLsbD_ushiftRight]
  have hout : 32 ≤ 16 + (16 + i) := by omega
  rw [BitVec.getLsbD_of_ge w _ hout]
  simp

@[simp] theorem lower_ushiftRight : lower (w >>> 16) = upper w := by
  ext i hi
  simp [lower,upper]

theorem msb_upper : (upper w).msb = w.msb := by
  simp [upper,BitVec.msb_eq_getLsbD_last]

@[simp] theorem lower_sshiftRight : lower (w.sshiftRight 16) = upper w := by
  ext i hi
  simp only [lower,upper,BitVec.getElem_extractLsb',BitVec.getLsbD_sshiftRight]
  have hlow : 16 + i < 32 := by omega
  have hin : ¬32 ≤ i := by omega
  simp [hlow,hin]

/-- The arithmetic shift fills the upper half with the sign. -/
@[simp] theorem upper_sshiftRight :
    upper (w.sshiftRight 16) = if (upper w).msb = true then 0xFFFF else 0#16 := by
  rw [msb_upper]
  apply BitVec.eq_of_getLsbD_eq
  intro i hi
  have hhigh : ¬16 + (16 + i) < 32 := by omega
  have hin : ¬32 ≤ 16 + i := by omega
  have hones : (0xFFFF : Half) = BitVec.allOnes 16 := rfl
  rw [getLsbD_upper,BitVec.getLsbD_sshiftRight,hones]
  cases w.msb
  · simp [hhigh]
  · rw [if_pos rfl,BitVec.getLsbD_allOnes]
    simp [hhigh,hin]

theorem ushiftRight_eq : w >>> 16 = wide (upper w) := ext_halves (by simp) (by simp)

theorem and_lowMask_eq : w &&& 0x0000FFFF = wide (lower w) := by
  have hup : upper (0x0000FFFF : Word) = 0#16 := rfl
  have hlow : lower (0x0000FFFF : Word) = BitVec.allOnes 16 := rfl
  apply ext_halves
  · rw [upper_and,hup,upper_wide]
    exact BitVec.and_zero
  · rw [lower_and,hlow,lower_wide,BitVec.and_allOnes]

theorem wide_inj {e f : Half} : wide e = wide f ↔ e = f := by
  constructor
  · intro h
    rw [← lower_wide e,h,lower_wide]
  · rintro rfl
    rfl

theorem wide_lt_wide {e f : Half} : wide e < wide f ↔ e < f := by
  rw [BitVec.lt_def,BitVec.lt_def,wide,wide,BitVec.toNat_setWidth_of_le (by decide),
    BitVec.toNat_setWidth_of_le (by decide)]

end Halves

section Sequence

/-- The entry at a position of the sequence. -/
def half (mask : Nat → Word) (k : Nat) : Half :=
  if k % 2 = 0 then upper (mask (k / 2)) else lower (mask (k / 2))

variable {mask : Nat → Word}

theorem half_even (mask : Nat → Word) (i : Nat) : half mask (2 * i) = upper (mask i) := by
  rw [half,if_pos (by omega),Nat.mul_div_cancel_left i (by decide)]

theorem half_odd (mask : Nat → Word) (i : Nat) : half mask (2 * i + 1) = lower (mask i) := by
  have hword : (2 * i + 1) / 2 = i := by omega
  rw [half,if_neg (by omega),hword]

/-- The entries of the other words are left alone. -/
theorem half_update_of_ne {k i : Nat} {w : Word} (h : k / 2 ≠ i) :
    half (Function.update mask i w) k = half mask k := by
  rw [half,half,Function.update_of_ne h]

theorem half_update_self {k i : Nat} {w : Word} (h : k / 2 = i) :
    half (Function.update mask i w) k = if k % 2 = 0 then upper w else lower w := by
  rw [half,h,Function.update_self]

end Sequence

end HalfWords
