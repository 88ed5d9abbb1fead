import Mathlib.Data.List.GetD
import Pyrn.Framework.LittleEndian

/-!
# The card-specific data register

A card describes itself in a register of 128 bits, which it sends with the highest byte in front.
`_sd_sectors` takes the number of sectors from fields of the register, in arithmetic of 32 bits.
-/

namespace Pyrn.Storage

open LittleEndian

/-- `ext_bits(data, msb, lsb)`. -/
def extBits (data : List UInt8) (msb lsb : Nat) : Nat :=
  let size := 1 + msb - lsb
  (List.range size).foldl (fun bits i =>
    let position := lsb + i
    let byte := 15 - (position >>> 3)
    let bit := position &&& 7
    let value := ((data.getD byte 0).toNat >>> bit) &&& 1
    bits ||| (value <<< i)) 0

/-- What `_sd_sectors` makes of the register: the unit of the card's addresses, and the number of
sectors; nothing where it does not know the structure. -/
def decodeCsd (csd : List UInt8) : Option (Int × Int) :=
  let csd_structure := extBits csd 127 126
  if csd_structure = 0 then
    let c_size := extBits csd 73 62
    let c_size_mult := extBits csd 49 47
    let read_bl_len := extBits csd 83 80
    let block_len := 1 <<< read_bl_len
    let mult := 1 <<< (c_size_mult + 2)
    let blocknr := (c_size + 1) * mult
    -- the product does not always fit an `int`
    let capacity := signed 4 (blocknr * block_len % 2 ^ 32)
    some (512,capacity.tdiv 512)
  else if csd_structure = 1 then
    let hc_c_size := extBits csd 63 48
    some (1,(hc_c_size + 1) * 1024)
  else none

/-- The number that the register holds. -/
def registerOf (csd : List UInt8) : Nat := ofBytes csd.reverse

/-- The bits of a number from `lsb` to `msb`. -/
def field (n msb lsb : Nat) : Nat := n / 2 ^ lsb % 2 ^ (1 + msb - lsb)

/-- The bytes that a card of structure 0 holds. -/
def standardCapacity (n : Nat) : Nat :=
  (field n 73 62 + 1) * 2 ^ (field n 49 47 + 2) * 2 ^ field n 83 80

/-- The size of a card of structure 1 is told in units of 512 KiB by a field of 22 bits. -/
def highCapacitySize (n : Nat) : Nat := field n 69 48

/-- The unit of a card's addresses: bytes, or whole sectors. -/
def addressUnit (n : Nat) : Int := if field n 127 126 = 0 then 512 else 1

/-- The sectors that a card has. -/
def sectorsOf (n : Nat) : Int :=
  if field n 127 126 = 0 then (standardCapacity n / 512 : Nat)
  else (highCapacitySize n + 1) * 1024

theorem testBit_foldl (value : Nat → Nat) (hvalue : ∀ i, value i < 2) (size j : Nat) :
    ((List.range size).foldl (fun bits i => bits ||| (value i <<< i)) 0).testBit j =
      (decide (j < size) && (value j).testBit 0) := by
  induction size with
  | zero => simp
  | succ size ih =>
    rw [List.range_succ,List.foldl_append,List.foldl_cons,List.foldl_nil,Nat.testBit_or,ih,
      Nat.testBit_shiftLeft]
    rcases Nat.lt_trichotomy j size with hlt | rfl | hgt
    · have hnot : ¬size ≤ j := Nat.not_le.mpr hlt
      simp [hlt,hnot,Nat.lt_succ_of_lt hlt]
    · simp
    · have hpos : 0 < j - size := Nat.sub_pos_of_lt hgt
      have hzero : (value size).testBit (j - size) = false :=
        Nat.testBit_lt_two_pow (Nat.lt_of_lt_of_le (hvalue size)
          (Nat.pow_le_pow_right Nat.two_pos hpos))
      have hnot : ¬j < size + 1 := by omega
      simp [Nat.lt_asymm hgt,hnot,hzero]

/-- `ext_bits` gives the field of the number that the register holds. -/
theorem extBits_eq {csd : List UInt8} (hlength : csd.length = 16) {msb lsb : Nat}
    (hmsb : msb < 128) : extBits csd msb lsb = field (registerOf csd) msb lsb := by
  apply Nat.eq_of_testBit_eq
  intro j
  rw [field,Nat.testBit_mod_two_pow,← Nat.shiftRight_eq_div_pow,Nat.testBit_shiftRight,
    registerOf,testBit_ofBytes]
  refine (testBit_foldl (fun i =>
    ((csd.getD (15 - ((lsb + i) >>> 3)) 0).toNat >>> ((lsb + i) &&& 7)) &&& 1)
      (fun i => ?_) _ j).trans ?_
  · exact Nat.lt_succ_of_le Nat.and_le_right
  · by_cases hj : j < 1 + msb - lsb
    · have hbyte : (lsb + j) / 8 < csd.reverse.length := by
        rw [List.length_reverse]
        omega
      have hsame : csd.reverse.getD ((lsb + j) / 8) 0 = csd.getD (15 - (lsb + j) / 8) 0 := by
        have hindex : 15 - (lsb + j) / 8 < csd.length := by omega
        rw [List.getD_eq_getElem _ _ hbyte,List.getD_eq_getElem _ _ hindex,List.getElem_reverse]
        congr 1
        omega
      rw [hsame,Nat.testBit_and,Nat.testBit_shiftRight,Nat.shiftRight_eq_div_pow]
      have hbit : (lsb + j) &&& 7 = (lsb + j) % 8 := Nat.and_two_pow_sub_one_eq_mod (lsb + j) 3
      rw [hbit]
      simp
    · simp [hj]

theorem decodeCsd_eq {csd : List UInt8} (hlength : csd.length = 16) {n : Nat}
    (hn : n = registerOf csd) : decodeCsd csd =
      if field n 127 126 = 0 then some (512,(signed 4 (standardCapacity n % 2 ^ 32)).tdiv 512)
      else if field n 127 126 = 1 then some (1,(field n 63 48 + 1) * 1024)
      else none := by
  subst hn
  simp only [decodeCsd,extBits_eq hlength (Nat.lt_succ_self 127),
    extBits_eq hlength (show 73 < 128 by decide),extBits_eq hlength (show 49 < 128 by decide),
    extBits_eq hlength (show 83 < 128 by decide),extBits_eq hlength (show 63 < 128 by decide),
    Nat.shiftLeft_eq,Nat.one_mul,standardCapacity]

theorem field_lt (n msb lsb : Nat) : field n msb lsb < 2 ^ (1 + msb - lsb) :=
  Nat.mod_lt _ (Nat.two_pow_pos _)

/-- `_sd_sectors` takes in 16 of the 22 bits that tell the size of a card of structure 1. -/
theorem field_highCapacity (n : Nat) : field n 63 48 = highCapacitySize n % 2 ^ 16 :=
  (Nat.mod_mod_of_dvd (n / 2 ^ 48) (Nat.pow_dvd_pow 2 (show 16 ≤ 22 by decide))).symm

theorem tdiv_signed_eq_iff (capacity : Nat) :
    (signed 4 (capacity % 2 ^ 32)).tdiv 512 = (capacity / 512 : Nat) ↔ capacity < 2 ^ 31 := by
  constructor
  · intro heq
    have hbelow : signed 4 (capacity % 2 ^ 32) < 2 ^ 31 :=
      (signed_range (show 0 < 4 by decide)
        (Nat.mod_lt capacity (show 0 < 2 ^ (8 * 4) by decide))).2
    have hle : (signed 4 (capacity % 2 ^ 32)).tdiv 512 ≤ (2 ^ 31 - 1 : Int).tdiv 512 :=
      Int.tdiv_le_tdiv (by decide) (Int.le_sub_one_of_lt hbelow)
    have hlast : (2 ^ 31 - 1 : Int).tdiv 512 = 2 ^ 22 - 1 := rfl
    omega
  · intro hlt
    have hmod : capacity % 2 ^ 32 = capacity := Nat.mod_eq_of_lt (by omega)
    rw [hmod,signed,if_pos hlt,Int.tdiv_eq_ediv_of_nonneg (Int.natCast_nonneg _)]
    rfl

/-- The number of sectors is right exactly when a standard card has less than 2 GiB, and the size
of a high-capacity card fits 16 bits. -/
theorem decodeCsd_right_iff {csd : List UInt8} (hlength : csd.length = 16)
    (hstructure : field (registerOf csd) 127 126 < 2) :
    decodeCsd csd = some (addressUnit (registerOf csd),sectorsOf (registerOf csd)) ↔
      if field (registerOf csd) 127 126 = 0 then standardCapacity (registerOf csd) < 2 ^ 31
      else highCapacitySize (registerOf csd) < 2 ^ 16 := by
  rw [decodeCsd_eq hlength rfl,addressUnit,sectorsOf]
  by_cases hzero : field (registerOf csd) 127 126 = 0
  · simp only [if_pos hzero,Option.some.injEq,Prod.mk.injEq,true_and]
    exact tdiv_signed_eq_iff _
  · have hone : field (registerOf csd) 127 126 = 1 := by omega
    simp only [if_neg hzero,if_pos hone,Option.some.injEq,Prod.mk.injEq,true_and]
    rw [field_highCapacity]
    constructor
    · intro heq
      have hlt := Nat.mod_lt (highCapacitySize (registerOf csd)) (show 0 < 2 ^ 16 by decide)
      omega
    · intro hlt
      rw [Nat.mod_eq_of_lt hlt]

end Pyrn.Storage
