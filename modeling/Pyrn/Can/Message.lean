import Mathlib.Data.Nat.Notation

/-!
# CAN messages
-/

namespace Pyrn.Can

inductive CANFormat
  | CANStandard
  | CANExtended
  | CANAny
  deriving DecidableEq, Repr

inductive CANType
  | CANData
  | CANRemote
  deriving DecidableEq, Repr

/-- A CAN message; its data field always has eight bytes, of which `len` are meant. -/
structure CANMessage where
  id : UInt32
  data : List UInt8
  len : UInt8
  format : CANFormat
  type : CANType
  data_length : data.length = 8
  deriving DecidableEq, Repr

/-- The default constructor. -/
def CANMessage.empty : CANMessage where
  id := 0
  data := List.replicate 8 0
  len := 8
  format := .CANStandard
  type := .CANData
  data_length := rfl

end Pyrn.Can
