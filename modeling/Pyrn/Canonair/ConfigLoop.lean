import Pyrn.Can.RecorderCalculator
import Pyrn.Framework.Buffer
import Pyrn.Framework.PackedStruct

/-!
# The configuration loop

The parse loop of `APP_CANONAIR_V2` walks over the received configuration, builds the data of a
recorder calculator from each record and keeps the calculators that are ready.
-/

namespace Pyrn.Canonair

open Pyrn.Can PackedStruct

def recDtaSz : Nat := 720

def calcDataSz : Nat := 128

def nMaxRecs : Nat := 32

/-- The loop over the chunks: from chunk `c` on, the data built and the offset. `none` is a
write past the end of `calcData`. -/
def copyChunks (config : Memory) : Nat → Nat → List UInt8 × Nat → Option (List UInt8 × Nat)
  | 0, _, st => some st
  | left + 1, c, (calcData,offset) => do
      let calcData ← Buffer.store calcData (sizeofCANRecorderCalculatorHeader + c * 2 : Nat)
        [config offset]
      let calcData ← Buffer.store calcData (sizeofCANRecorderCalculatorHeader + (c * 2 + 1) : Nat)
        [config (offset + 1)]
      copyChunks config left (c + 1) (calcData,offset + 2)

/-- The header that a record at an offset gives. -/
def calcHeaderOf (config : Memory) (offset : Nat) : List UInt8 :=
  image [(1,2),(4,0),(2,500),(4,config.field offset 4),(1,6),(1,14),(1,(config (offset + 4)).toNat)]

/-- The data built from the record at an offset, and the offset behind the record. -/
def buildCalcData (config : Memory) (offset : Nat) : Option (List UInt8 × Nat) := do
  let calcData ← Buffer.store (List.replicate calcDataSz 0) 0 (calcHeaderOf config offset)
  copyChunks config (config (offset + 4)).toNat 0 (calcData,offset + 5)

/-- `starts` are the offsets of the records consumed so far; `recCalcs` are the calculators
kept, each with the recorder built on it. -/
structure ConfigState where
  offset : Nat
  starts : List Nat
  recCalcs : List CANRecorderCalculator
  deriving DecidableEq, Repr

/-- One round; `fresh` is the memory of the new calculator. -/
def configRound (config : Memory) (fresh : CANRecorderCalculator) (st : ConfigState) :
    Option ConfigState := do
  let (calcData,offset) ← buildCalcData config st.offset
  let recCalc := (fresh.setData fun i => calcData.getD i 0).object
  return ⟨offset,st.starts ++ [st.offset],
    if recCalc.ready = true then st.recCalcs ++ [recCalc] else st.recCalcs⟩

/-- The loop on `l` received bytes; `none` is a write out of bounds or a lack of fuel. -/
def parseConfig (config : Memory) (l : Int) (fresh : Nat → CANRecorderCalculator) :
    Nat → ConfigState → Option ConfigState
  | 0, _ => none
  | fuel + 1, st =>
      if st.offset < l then
        if st.recCalcs.length < nMaxRecs then do
          let next ← configRound config (fresh st.starts.length) st
          parseConfig config l fresh fuel next
        else some st
      else some st

end Pyrn.Canonair
