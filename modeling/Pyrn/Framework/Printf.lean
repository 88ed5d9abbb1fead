import Mathlib.Data.List.Basic
import Mathlib.Algebra.Ring.Nat

/-!
# Printed numbers

The decimal and hexadecimal conversions of `printf` with a minimum width. A conversion never cuts
a number off, so the width of a column is the minimum width only for small enough numbers.
-/

namespace Printf

/-- Fill up on the left to a minimum width. -/
def pad (fill : Char) (width : Nat) (text : List Char) : List Char :=
  List.replicate (width - text.length) fill ++ text

/-- The signed decimal conversion. -/
def decimal (value : Int) : List Char :=
  if 0 ≤ value then Nat.toDigits 10 value.toNat else '-' :: Nat.toDigits 10 (-value).toNat

/-- The lower-case hexadecimal conversion, filled up with zeros. -/
def hex (width value : Nat) : List Char := pad '0' width (Nat.toDigits 16 value)

/-- The upper-case hexadecimal conversion, filled up with zeros. -/
def upperHex (width value : Nat) : List Char :=
  pad '0' width ((Nat.toDigits 16 value).map Char.toUpper)

/-- A number in exactly `width` digits, without those that do not fit. -/
def digits (base : Nat) : Nat → Nat → List Char
  | 0, _ => []
  | width + 1, value => digits base width (value / base) ++ [Nat.digitChar (value % base)]

theorem pad_length (fill : Char) (width : Nat) (text : List Char) :
    (pad fill width text).length = max width text.length := by
  rw [pad,List.length_append,List.length_replicate]
  omega

theorem pad_of_le {fill : Char} {width : Nat} {text : List Char} (h : width ≤ text.length) :
    pad fill width text = text := by
  rw [pad,Nat.sub_eq_zero_of_le h,List.replicate_zero,List.nil_append]

theorem pad_append_singleton (fill : Char) (width : Nat) (text : List Char) (c : Char) :
    pad fill (width + 1) (text ++ [c]) = pad fill width text ++ [c] := by
  rw [pad,pad,List.length_append,List.length_singleton,Nat.add_sub_add_right,List.append_assoc]

@[simp] theorem digits_length (base width value : Nat) :
    (digits base width value).length = width := by
  induction width generalizing value with
  | zero => rfl
  | succ width ih => rw [digits,List.length_append,ih,List.length_singleton]

theorem digits_zero (base width : Nat) : digits base width 0 = List.replicate width '0' := by
  induction width with
  | zero => rfl
  | succ width ih =>
    rw [digits,Nat.zero_div,Nat.zero_mod,ih,List.replicate_succ']
    rfl

/-- The first of the digits of a number. -/
theorem digits_succ_eq_cons (base width value : Nat) :
    digits base (width + 1) value =
      Nat.digitChar (value / base ^ width % base) :: digits base width value := by
  induction width generalizing value with
  | zero =>
    rw [digits,digits,digits,pow_zero,Nat.div_one]
    rfl
  | succ width ih =>
    rw [digits,ih,pow_succ',← Nat.div_div_eq_div_mul]
    rfl

/-- A number that fits is printed in exactly as many digits as there are places. -/
theorem pad_toDigits {base width value : Nat} (hbase : 1 < base) (hpos : 0 < width)
    (hfits : value < base ^ width) :
    pad '0' width (Nat.toDigits base value) = digits base width value := by
  induction width generalizing value with
  | zero => exact absurd hpos (Nat.lt_irrefl 0)
  | succ width ih =>
    rw [Nat.toDigits_eq_if hbase,digits]
    split_ifs with hsmall
    · rw [Nat.div_eq_of_lt hsmall,Nat.mod_eq_of_lt hsmall,digits_zero,pad,List.length_singleton,
        Nat.add_sub_cancel]
    · have hmore : 0 < width := by
        rcases Nat.eq_zero_or_pos width with rfl | hmore
        · rw [Nat.zero_add,pow_one] at hfits
          exact absurd hfits hsmall
        · exact hmore
      have hrest : value / base < base ^ width := by
        rw [pow_succ] at hfits
        exact Nat.div_lt_of_lt_mul (by rwa [Nat.mul_comm] at hfits)
      rw [pad_append_singleton,ih hmore hrest]

/-- A number is printed without filling up in as many digits as it has. -/
theorem toDigits_eq_digits {base : Nat} (hbase : 1 < base) (value : Nat) :
    Nat.toDigits base value = digits base (Nat.toDigits base value).length value := by
  have hpos : 0 < (Nat.toDigits base value).length := Nat.length_toDigits_pos
  rw [← pad_toDigits hbase hpos ((Nat.length_toDigits_le_iff hbase hpos).mp (Nat.le_refl _)),
    pad_of_le (Nat.le_refl _)]

theorem hex_eq {width value : Nat} (hpos : 0 < width) (hfits : value < 16 ^ width) :
    hex width value = digits 16 width value := pad_toDigits (by decide) hpos hfits

theorem upperHex_eq {width value : Nat} (hpos : 0 < width) (hfits : value < 16 ^ width) :
    upperHex width value = (digits 16 width value).map Char.toUpper := by
  have hzero : Char.toUpper '0' = '0' := rfl
  rw [← pad_toDigits (by decide) hpos hfits,upperHex,pad,pad,List.map_append,List.map_replicate,
    hzero,List.length_map]

/-- A signed number has as many digits as its absolute value, and its sign. -/
theorem decimal_length_le_iff {value : Int} {width : Nat} (hwidth : 1 < width) :
    (decimal value).length ≤ width ↔
      -(10 ^ (width - 1) : Nat) < value ∧ value < (10 ^ width : Nat) := by
  have hlow : (0 : Int) < (10 ^ (width - 1) : Nat) := by exact_mod_cast Nat.pow_pos (by decide)
  have hhigh : (0 : Int) < (10 ^ width : Nat) := by exact_mod_cast Nat.pow_pos (by decide)
  rw [decimal]
  split_ifs with hsign
  · rw [Nat.length_toDigits_le_iff (by decide) (by omega)]
    omega
  · rw [List.length_cons]
    have hless : (Nat.toDigits 10 (-value).toNat).length + 1 ≤ width ↔
        (Nat.toDigits 10 (-value).toNat).length ≤ width - 1 := by omega
    rw [hless,Nat.length_toDigits_le_iff (by decide) (by omega)]
    omega

/-- The digits of a number, one position after the other. -/
theorem mem_digits {base width value : Nat} {c : Char} :
    c ∈ digits base width value ↔
      ∃ k < width, c = Nat.digitChar (value / base ^ k % base) := by
  induction width generalizing value with
  | zero =>
    constructor
    · intro hmem
      cases hmem
    · rintro ⟨k,hk,-⟩
      exact absurd hk (Nat.not_lt_zero k)
  | succ width ih =>
    rw [digits,List.mem_append,List.mem_singleton,ih]
    constructor
    · rintro (⟨k,hk,rfl⟩ | rfl)
      · exact ⟨k + 1,by omega,by rw [pow_succ',Nat.div_div_eq_div_mul]⟩
      · exact ⟨0,Nat.succ_pos width,by rw [pow_zero,Nat.div_one]⟩
    · rintro ⟨k,hk,rfl⟩
      cases k with
      | zero => exact .inr (by rw [pow_zero,Nat.div_one])
      | succ k => exact .inl ⟨k,by omega,by rw [pow_succ',Nat.div_div_eq_div_mul]⟩

/-- The number that is read off digits of given values, behind the part that has been read. -/
def readDigits (digitValue : Char → Nat) (base number : Nat) (text : List Char) : Nat :=
  text.foldl (fun number c => number * base + digitValue c) number

theorem readDigits_append (digitValue : Char → Nat) (base number : Nat) (text more : List Char) :
    readDigits digitValue base number (text ++ more) =
      readDigits digitValue base (readDigits digitValue base number text) more := by
  rw [readDigits,List.foldl_append]
  rfl

/-- Reading back what has been printed, in any shape of the digits. -/
theorem readDigits_digits {digitValue : Char → Nat} {base : Nat} {shape : Char → Char}
    (hbase : 0 < base) (hvalue : ∀ d < base, digitValue (shape (Nat.digitChar d)) = d)
    (width value : Nat) : readDigits digitValue base 0 ((digits base width value).map shape) =
      value % base ^ width := by
  induction width generalizing value with
  | zero => rw [pow_zero,Nat.mod_one]; rfl
  | succ width ih =>
    have hlast := hvalue (value % base) (Nat.mod_lt _ hbase)
    rw [digits,List.map_append,readDigits_append,ih,readDigits,List.map_singleton,List.foldl_cons,
      List.foldl_nil,hlast,pow_succ',Nat.mod_mul,Nat.mul_comm,Nat.add_comm]

/-- Zeros in front of a number are read as nothing. -/
theorem readDigits_pad {digitValue : Char → Nat} (hzero : digitValue '0' = 0) (base width : Nat)
    (text : List Char) : readDigits digitValue base 0 (pad '0' width text) =
      readDigits digitValue base 0 text := by
  rw [pad]
  induction width - text.length with
  | zero => rfl
  | succ n ih =>
    rw [← ih,List.replicate_succ,List.cons_append,readDigits,List.foldl_cons,Nat.zero_mul,hzero]
    rfl

theorem readDigits_toDigits {digitValue : Char → Nat} {base : Nat} (hbase : 1 < base)
    (hvalue : ∀ d < base, digitValue (Nat.digitChar d) = d) (value : Nat) :
    readDigits digitValue base 0 (Nat.toDigits base value) = value := by
  have hzero : digitValue '0' = 0 := hvalue 0 (by omega)
  have hfits : value < base ^ (value + 1) :=
    Nat.lt_trans (Nat.lt_succ_self value) (Nat.lt_pow_self hbase)
  have hread := @readDigits_digits digitValue base id (by omega) hvalue (value + 1) value
  rw [List.map_id,Nat.mod_eq_of_lt hfits] at hread
  rw [← readDigits_pad hzero base (value + 1),pad_toDigits hbase (Nat.succ_pos value) hfits,hread]

end Printf
