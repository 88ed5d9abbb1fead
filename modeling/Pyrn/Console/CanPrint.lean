import Pyrn.Framework.LittleEndian
import Pyrn.Framework.Printf

/-!
# Printing CAN frames on the console

`CANPrintWorkAround` in its reduced format hands a text to `debug`, which puts the microsecond
ticker in front of it.
-/

namespace Pyrn.Console

open Printf

/-- The bytes of a frame in one call of `DBG`, separated by blanks. -/
def printedBytes (bytes : List UInt8) : List Char :=
  [' '].intercalate (bytes.map fun byte => upperHex 2 byte.toNat)

/-- The text of `CANPrintWorkAround`; `none` is a length for which it prints nothing. -/
def canPrintWorkAround (bus : UInt8) (id : UInt32) (data : List UInt8) (len : UInt8) :
    Option (List Char) :=
  if 1 ≤ len.toNat ∧ len.toNat ≤ 8 then
    some (decimal bus.toNat ++ ['|'] ++ hex 3 id.toNat ++ ['|'] ++ decimal len.toNat ++ ['|'] ++
      printedBytes (data.take len.toNat))
  else none

/-- What `debug` prints for a text: the conversion of the ticker is a signed one, and the
test for the other format misspells the name of its macro. -/
def debugLine (usTicker : UInt32) (text : List Char) : List Char :=
  pad ' ' 10 (decimal (LittleEndian.signed 4 usTicker.toNat)) ++ [' '] ++ text ++ ['\n']

/-- The values of the ticker that fill the ten columns in front of the text. -/
def FitsColumn (usTicker : UInt32) : Prop :=
  usTicker.toNat < 2 ^ 31 ∨ 2 ^ 32 - 10 ^ 9 < usTicker.toNat

instance (usTicker : UInt32) : Decidable (FitsColumn usTicker) :=
  inferInstanceAs (Decidable (_ ∨ _))

theorem ticker_length (usTicker : UInt32) :
    (pad ' ' 10 (decimal (LittleEndian.signed 4 usTicker.toNat))).length =
      if FitsColumn usTicker then 10 else 11 := by
  have hlt : usTicker.toNat < 2 ^ 32 := usTicker.toNat_lt
  have hten := @decimal_length_le_iff (LittleEndian.signed 4 usTicker.toNat) 10 (by decide)
  have heleven := @decimal_length_le_iff (LittleEndian.signed 4 usTicker.toNat) 11 (by decide)
  have hvalue : LittleEndian.signed 4 usTicker.toNat =
      if usTicker.toNat < 2 ^ 31 then (usTicker.toNat : Int) else usTicker.toNat - 2 ^ 32 := rfl
  rw [hvalue] at hten heleven ⊢
  rw [pad_length]
  by_cases hfits : FitsColumn usTicker
  · rw [if_pos hfits]
    rw [FitsColumn] at hfits
    split_ifs at hten ⊢ <;> omega
  · rw [if_neg hfits]
    rw [FitsColumn] at hfits
    rw [if_neg (by omega)] at hten heleven ⊢
    omega

end Pyrn.Console
