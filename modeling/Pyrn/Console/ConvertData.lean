import Pyrn.Console.BracketedLine
import Pyrn.Framework.LittleEndian
import Mathlib.Data.Int.Bitwise

/-!
# Values of captured bytes

The plotter joins bytes of a captured frame to one number, with the most significant byte first or
last, and reads it with or without a sign. It finds the sign bit at its place, but takes it off
once where two's complement takes it off twice.
-/

namespace Pyrn.Console

open Printf PackedStruct
open Bracketed (intOf isHexadecimal isHexadecimal_of_isDigit isDigit_upper intOf_upper)

/-- The bits of a converter. -/
def reversed : Nat := 0x01

def twoCompl : Nat := 0x02

/-- `1 << places`, which is an error for a negative number of places. -/
def bit (places : Int) : Option Int := if 0 ≤ places then some (2 ^ places.toNat) else none

def dropMarker (text : List Char) : List Char :=
  if text.take 2 = ['0','x'] ∨ text.take 2 = ['0','X'] then text.drop 2 else text

/-- Digits behind an optional marker. -/
def hexNumber (text : List Char) : Option Nat :=
  let word := dropMarker text
  if word ≠ [] ∧ word.all isHexadecimal = true then some (readDigits intOf 16 0 word) else none

/-- `int(text,16)`, with blanks around and a sign in front. -/
def hexInt (text : List Char) : Option Int :=
  let text := strip text
  if text.head? = some '-' then (hexNumber text.tail).map fun n : Nat => -(n : Int)
  else if text.head? = some '+' then (hexNumber text.tail).map fun n : Nat => (n : Int)
  else (hexNumber text).map fun n : Nat => (n : Int)

/-- The division is the integer division of Python 2. -/
def convertData (bytes : List (List Char)) (converter : Nat) : Option Int := do
  let l := bytes.length
  let bytes := if converter &&& reversed ≠ 0 then bytes.reverse else bytes
  let s := bytes.flatten
  if converter &&& twoCompl ≠ 0 then
    let s ← hexInt s
    if s > (2 ^ (l * 8) - 1) / 2 then
      let sign ← bit (l * 8 - 1)
      return s - sign
    else return s
  else hexInt s

/-- The conversion of the other plotter. -/
def twosComp (val bits : Int) : Option Int := do
  let sign ← bit (bits - 1)
  if val.land sign ≠ 0 then
    let range ← bit bits
    return val - range
  else return val

/-- The text of a byte: two hexadecimal digits, in either case. -/
structure HexByte where
  high : Char
  low : Char
  isHexadecimal_high : isHexadecimal high = true
  isHexadecimal_low : isHexadecimal low = true

namespace HexByte

def text (byte : HexByte) : List Char := [byte.high,byte.low]

def value (byte : HexByte) : UInt8 := UInt8.ofNat (16 * intOf byte.high + intOf byte.low)

/-- A byte as it is printed, in upper-case digits. -/
def ofByte (byte : UInt8) : HexByte where
  high := (Nat.digitChar (byte.toNat / 16 % 16)).toUpper
  low := (Nat.digitChar (byte.toNat % 16)).toUpper
  isHexadecimal_high :=
    isHexadecimal_of_isDigit (isDigit_upper _ (Nat.mod_lt _ (by decide)))
  isHexadecimal_low :=
    isHexadecimal_of_isDigit (isDigit_upper _ (Nat.mod_lt _ (by decide)))

theorem text_ofByte (byte : UInt8) : (ofByte byte).text = upperByte byte := rfl

@[simp] theorem value_ofByte (byte : UInt8) : (ofByte byte).value = byte := by
  have hhigh := intOf_upper (byte.toNat / 16 % 16) (Nat.mod_lt _ (by decide))
  have hlow := intOf_upper (byte.toNat % 16) (Nat.mod_lt _ (by decide))
  have hbyte := byte.toNat_lt
  apply UInt8.toNat_inj.mp
  rw [value,ofByte,UInt8.toNat_ofNat',hhigh,hlow]
  omega

end HexByte

/-- The number of some bytes, most significant byte first or, reversed, last. -/
def number (bytes : List HexByte) (converter : Nat) : Nat :=
  if converter &&& reversed ≠ 0 then LittleEndian.ofBytes (bytes.map HexByte.value)
  else LittleEndian.ofBytes (bytes.map HexByte.value).reverse

def mostSignificant (bytes : List HexByte) (converter : Nat) : Option HexByte :=
  if converter &&& reversed ≠ 0 then bytes.getLast? else bytes.head?

/-- A number of the signed range with the residue of another one. -/
def IsTwosComplement (bits number : Nat) (v : Int) : Prop :=
  -2 ^ (bits - 1) ≤ v ∧ v < 2 ^ (bits - 1) ∧ v ≡ number [ZMOD 2 ^ bits]

/-- The value of the bytes is the one two's complement value of their number, and the other plotter
agrees. -/
def ConvertsSigned (bytes : List HexByte) (converter : Nat) : Prop :=
  ∃ v, convertData (bytes.map HexByte.text) converter = some v ∧
    (∀ w, IsTwosComplement (8 * bytes.length) (number bytes converter) w ↔ w = v) ∧
    twosComp (number bytes converter) (8 * bytes.length) = some v

theorem isSpace_of_isHexadecimal {c : Char} (h : isHexadecimal c = true) : isSpace c = false := by
  rw [Bool.eq_false_iff]
  intro hspace
  simp only [isSpace,Bool.or_eq_true,decide_eq_true_eq] at hspace
  rcases hspace with ((((rfl | rfl) | rfl) | rfl) | rfl) | rfl <;> exact absurd h (by decide)

theorem intOf_lt {c : Char} (h : isHexadecimal c = true) : intOf c < 16 := by
  have hle (a b : Char) : a ≤ b ↔ a.toNat ≤ b.toNat := Iff.rfl
  simp only [isHexadecimal,Bool.or_eq_true,Bool.and_eq_true,decide_eq_true_eq,ge_iff_le,hle] at h
  simp only [intOf,hle,Char.reduceToNat] at h ⊢
  split_ifs <;> omega

theorem HexByte.value_toNat (byte : HexByte) :
    byte.value.toNat = 16 * intOf byte.high + intOf byte.low := by
  have hhigh := intOf_lt byte.isHexadecimal_high
  have hlow := intOf_lt byte.isHexadecimal_low
  rw [value,UInt8.toNat_ofNat']
  omega

/-- Digits are neither blank nor sign nor marker. -/
theorem hexInt_word {word : List Char} (hword : word.all isHexadecimal = true) (hsome : word ≠ []) :
    hexInt word = some (readDigits intOf 16 0 word : Int) := by
  have hdigit : ∀ c ∈ word, isHexadecimal c = true := List.all_eq_true.mp hword
  have hstrip : strip word = word := by
    have hspace : ∀ c ∈ word, isSpace c = false := fun c hmem =>
      isSpace_of_isHexadecimal (hdigit c hmem)
    have hfront : word.dropWhile isSpace = word := by
      rw [List.dropWhile_eq_self_iff]
      intro hpos
      rw [hspace _ (List.getElem_mem hpos)]
      decide
    rw [strip,hfront,List.rdropWhile_eq_self_iff]
    intro hne
    rw [hspace _ (List.getLast_mem hne)]
    decide
  have hsign {c : Char} (hc : isHexadecimal c = false) : word.head? ≠ some c := fun hhead =>
    absurd ((hdigit c (List.mem_of_mem_head? hhead)).symm.trans hc) (by decide)
  have hmarker {c : Char} (hc : isHexadecimal c = false) : word.take 2 ≠ ['0',c] := by
    intro htake
    have hmem : c ∈ word := List.mem_of_mem_take (htake ▸ List.mem_cons_of_mem _ List.mem_cons_self)
    exact absurd ((hdigit c hmem).symm.trans hc) (by decide)
  have hdrop : dropMarker word = word :=
    if_neg (not_or.mpr ⟨hmarker (by decide),hmarker (by decide)⟩)
  rw [hexInt,hstrip,if_neg (hsign (by decide)),if_neg (hsign (by decide)),hexNumber,hdrop,
    if_pos ⟨hsome,hword⟩,Option.map_some]

theorem readDigits_text (bytes : List HexByte) :
    readDigits intOf 16 0 (bytes.map HexByte.text).flatten =
      LittleEndian.ofBytes (bytes.map HexByte.value).reverse := by
  induction bytes using List.reverseRecOn with
  | nil => rfl
  | append_singleton bytes byte ih =>
    rw [List.map_append,List.flatten_append,readDigits_append,ih,List.map_append,
      List.reverse_append,List.map_singleton,List.map_singleton,List.reverse_singleton,
      List.singleton_append,LittleEndian.ofBytes_cons,HexByte.value_toNat,List.flatten_singleton,
      HexByte.text,readDigits,List.foldl_cons,List.foldl_cons,List.foldl_nil]
    omega

/-- The bytes are joined in the order of the number. -/
theorem hexInt_joined {bytes : List HexByte} (hbytes : bytes ≠ []) (converter : Nat) :
    hexInt (if converter &&& reversed ≠ 0 then (bytes.map HexByte.text).reverse
      else bytes.map HexByte.text).flatten = some (number bytes converter : Int) := by
  have hjoined (bytes : List HexByte) (hbytes : bytes ≠ []) :
      hexInt (bytes.map HexByte.text).flatten =
        some (LittleEndian.ofBytes (bytes.map HexByte.value).reverse : Int) := by
    have hword : (bytes.map HexByte.text).flatten.all isHexadecimal = true := by
      rw [List.all_eq_true]
      intro c hmem
      obtain ⟨text,htext,hc⟩ := List.mem_flatten.mp hmem
      obtain ⟨byte,-,rfl⟩ := List.mem_map.mp htext
      rcases List.mem_pair.mp hc with rfl | rfl
      · exact byte.isHexadecimal_high
      · exact byte.isHexadecimal_low
    have hsome : (bytes.map HexByte.text).flatten ≠ [] := by
      obtain ⟨byte,rest,rfl⟩ := List.exists_cons_of_ne_nil hbytes
      exact List.cons_ne_nil _ _
    rw [hexInt_word hword hsome,readDigits_text]
  rw [number]
  split_ifs
  · rw [← List.map_reverse,hjoined _ (mt List.reverse_eq_nil_iff.mp hbytes),List.map_reverse,
      List.reverse_reverse]
  · exact hjoined bytes hbytes

theorem bit_of_pos {places : Nat} (hplaces : 0 < places) :
    bit (places - 1) = some (2 ^ (places - 1)) := by
  have htoNat : ((places : Int) - 1).toNat = places - 1 := by omega
  rw [bit,if_pos (by omega),htoNat]

theorem number_lt (bytes : List HexByte) (converter : Nat) :
    number bytes converter < 2 ^ (8 * bytes.length) := by
  rw [pow_mul,number]
  split_ifs
  · simpa using LittleEndian.ofBytes_lt (bytes.map HexByte.value)
  · simpa using LittleEndian.ofBytes_lt (bytes.map HexByte.value).reverse

/-- The number of printed bytes is the one of the bytes. -/
theorem number_ofByte (frame : List UInt8) (converter : Nat) :
    number (frame.map HexByte.ofByte) converter =
      LittleEndian.ofBytes (if converter &&& reversed ≠ 0 then frame else frame.reverse) := by
  have hvalues : (frame.map HexByte.ofByte).map HexByte.value = frame := by
    rw [List.map_map]
    exact List.map_id'' HexByte.value_ofByte frame
  rw [number,hvalues]
  split_ifs <;> rfl

/-- The sign bit is found at its place and taken off once. -/
theorem convertData_text {bytes : List HexByte} (hbytes : bytes ≠ []) (converter : Nat) :
    convertData (bytes.map HexByte.text) converter =
      some (if converter &&& twoCompl ≠ 0 ∧ 2 ^ (8 * bytes.length - 1) ≤ number bytes converter
        then (number bytes converter : Int) - 2 ^ (8 * bytes.length - 1)
        else number bytes converter) := by
  have hpos : 0 < bytes.length := List.length_pos_iff.mpr hbytes
  have hbit : bit ((bytes.length : Int) * 8 - 1) = some (2 ^ (8 * bytes.length - 1)) := by
    rw [← bit_of_pos (by omega),Nat.cast_mul,Int.mul_comm]
    rfl
  have hrange : (2 ^ (bytes.length * 8) : Int) = 2 * 2 ^ (8 * bytes.length - 1) := by
    rw [Nat.mul_comm]
    exact_mod_cast LittleEndian.two_pow_half hpos
  have hthreshold : (number bytes converter : Int) > (2 ^ (bytes.length * 8) - 1) / 2 ↔
      2 ^ (8 * bytes.length - 1) ≤ number bytes converter := by
    rw [hrange,← Int.ofNat_le]
    push_cast
    omega
  rw [convertData,List.length_map]
  simp only [hexInt_joined hbytes,Option.bind_eq_bind,Option.bind_some,hthreshold,hbit]
  by_cases hflag : converter &&& twoCompl ≠ 0
  · rw [if_pos hflag]
    by_cases hsign : 2 ^ (8 * bytes.length - 1) ≤ number bytes converter
    · rw [if_pos hsign,if_pos ⟨hflag,hsign⟩]
      rfl
    · rw [if_neg hsign,if_neg fun h => hsign h.2]
      rfl
  · rw [if_neg hflag,if_neg fun h => hflag h.1]

example : convertData [['1','2'],['a','B']] (twoCompl + reversed) = some (0xAB12 - 0x8000) := by
  decide

/-- The highest bit of a number decides in which half of the range it lies. -/
theorem land_two_pow {n k : Nat} (hn : n < 2 * 2 ^ k) :
    Int.land n (2 ^ k) ≠ 0 ↔ ¬n < 2 ^ k := by
  have hland : Int.land n (2 ^ k) = ((n &&& 2 ^ k : Nat) : Int) := by
    rw [← Nat.cast_ofNat,← Nat.cast_pow]
    rfl
  have hpos : 0 < 2 ^ k := Nat.two_pow_pos k
  rw [hland,Nat.cast_ne_zero,Nat.and_two_pow,Nat.testBit_eq_decide_div_mod_eq]
  by_cases hlow : n < 2 ^ k
  · rw [Nat.div_eq_of_lt hlow]
    simp [hlow]
  · have hdiv : n / 2 ^ k = 1 := Nat.div_eq_of_lt_le (by omega) (by omega)
    rw [hdiv]
    simp [hlow]

theorem twosComp_number {width number : Nat} (hwidth : 0 < width)
    (hnumber : number < 2 ^ (8 * width)) :
    twosComp number (8 * width) = some (LittleEndian.signed width number) := by
  have hsign : bit ((8 * width : Nat) - 1) = some (2 ^ (8 * width - 1)) := bit_of_pos (by omega)
  have hrange : bit (8 * width : Nat) = some (2 ^ (8 * width)) := by
    rw [bit,if_pos (Int.natCast_nonneg _),Int.toNat_natCast]
  have hland := land_two_pow (LittleEndian.two_pow_half hwidth ▸ hnumber)
  rw [Nat.cast_mul] at hsign hrange
  change bit (8 * (width : Int) - 1) = _ at hsign
  change bit (8 * (width : Int)) = _ at hrange
  rw [twosComp,hsign,LittleEndian.signed]
  simp only [Option.bind_eq_bind,Option.bind_some,hland,hrange]
  by_cases hlow : number < 2 ^ (8 * width - 1)
  · rw [if_neg (not_not_intro hlow),if_pos hlow]
    rfl
  · rw [if_pos hlow,if_neg hlow]
    rfl

/-- The sign of a number is the high bit of its most significant byte. -/
theorem number_lt_half_iff {bytes : List HexByte} (hbytes : bytes ≠ []) (converter : Nat) :
    number bytes converter < 2 ^ (8 * bytes.length - 1) ↔
      ∀ top ∈ mostSignificant bytes converter, top.value < 0x80 := by
  have hhalf (low : List HexByte) (top : HexByte) :
      LittleEndian.ofBytes (low.map HexByte.value ++ [top.value]) < 2 ^ (8 * (low.length + 1) - 1) ↔
        top.value < 0x80 := by
    rw [← List.length_map (f := HexByte.value),LittleEndian.ofBytes_concat_lt_half]
    exact Iff.rfl
  rw [number,mostSignificant]
  split_ifs
  · obtain ⟨low,top,rfl⟩ : ∃ low top, bytes = low ++ [top] :=
      ⟨_,_,(List.dropLast_append_getLast hbytes).symm⟩
    rw [List.map_append,List.map_singleton,List.length_append,List.length_singleton,hhalf,
      List.getLast?_concat]
    simp only [Option.mem_some_iff,forall_eq']
  · obtain ⟨top,low,rfl⟩ := List.exists_cons_of_ne_nil hbytes
    rw [List.map_cons,List.reverse_cons,← List.map_reverse,List.length_cons,← List.length_reverse,
      hhalf,List.head?_cons]
    simp only [Option.mem_some_iff,forall_eq']

/-- Bytes are converted to their two's complement value exactly when the sign bit is clear. -/
theorem convertData_signed_iff {bytes : List HexByte} (hbytes : bytes ≠ []) {converter : Nat}
    (hflag : converter &&& twoCompl ≠ 0) : ConvertsSigned bytes converter ↔
      ∀ top ∈ mostSignificant bytes converter, top.value < 0x80 := by
  have hpos : 0 < bytes.length := List.length_pos_iff.mpr hbytes
  have hnumber := number_lt bytes converter
  have hvalue := LittleEndian.eq_signed_iff hpos hnumber
  rw [← number_lt_half_iff hbytes]
  constructor
  · rintro ⟨v,hconverted,-,hcomp⟩
    by_contra hlow
    have hsign : 2 ^ (8 * bytes.length - 1) ≤ number bytes converter := Nat.le_of_not_lt hlow
    have hagree := hconverted.trans hcomp.symm
    rw [convertData_text hbytes,if_pos ⟨hflag,hsign⟩,twosComp_number hpos hnumber,
      LittleEndian.signed,if_neg hlow,Option.some_inj] at hagree
    have hrange : (2 ^ (8 * bytes.length) : Int) = 2 * 2 ^ (8 * bytes.length - 1) := by
      exact_mod_cast LittleEndian.two_pow_half hpos
    have hhalf : (0 : Int) < 2 ^ (8 * bytes.length - 1) := Int.pow_pos (by decide)
    omega
  · intro hlow
    have hsigned : LittleEndian.signed bytes.length (number bytes converter) =
        number bytes converter := by rw [LittleEndian.signed,if_pos hlow]
    refine ⟨number bytes converter,?_,?_,?_⟩
    · rw [convertData_text hbytes,if_neg fun h => Nat.not_le_of_lt hlow h.2]
    · intro w
      rw [IsTwosComplement,hvalue,hsigned]
    · rw [twosComp_number hpos hnumber,hsigned]

/-- The bytes `12` and `AB`, in the one order and in the other. -/
theorem convertData_signed_example :
    let bytes : List HexByte := [⟨'1','2',by decide,by decide⟩,⟨'A','b',by decide,by decide⟩]
    ConvertsSigned bytes twoCompl ∧ ¬ConvertsSigned bytes (twoCompl + reversed) := by
  intro bytes
  have hhigh : bytes.head? = some ⟨'1','2',by decide,by decide⟩ := rfl
  have hlast : bytes.getLast? = some ⟨'A','b',by decide,by decide⟩ := rfl
  constructor
  · refine (convertData_signed_iff (List.cons_ne_nil _ _) (by decide)).mpr ?_
    intro top htop
    rw [mostSignificant,if_neg (by decide),hhigh] at htop
    cases htop
    decide
  · intro hconverts
    have htop := (convertData_signed_iff (List.cons_ne_nil _ _) (by decide)).mp hconverts _
      (by rw [mostSignificant,if_pos (by decide),hlast]; rfl)
    exact absurd htop (by decide)

/-- The byte `FF`, which is -1, becomes 127. -/
theorem convertData_not_signed :
    convertData [['F','F']] twoCompl = some 127 ∧ twosComp 0xFF 8 = some (-1) ∧
      IsTwosComplement 8 0xFF (-1) ∧ ¬IsTwosComplement 8 0xFF 127 ∧
      ¬∀ (bytes : List HexByte) (converter : Nat), bytes ≠ [] → converter &&& twoCompl ≠ 0 →
        ConvertsSigned bytes converter := by
  have hconverted : convertData [['F','F']] twoCompl = some 127 := by decide
  have hcomp : twosComp 0xFF 8 = some (-1) := by decide
  refine ⟨hconverted,hcomp,by unfold IsTwosComplement; decide,by unfold IsTwosComplement; decide,?_⟩
  intro hall
  obtain ⟨v,hv,-,hagree⟩ := hall [⟨'F','F',by decide,by decide⟩] twoCompl (List.cons_ne_nil _ _)
    (by decide)
  have hsame : some (127 : Int) = some (-1) :=
    hconverted.symm.trans (hv.trans (hagree.symm.trans hcomp))
  exact absurd hsame (by decide)

end Pyrn.Console
