import Pyrn.Framework.PackedStruct

/-!
# The data server

`getConfig` packs the calculators of a configuration for the client; `parseFrame` takes the
datagrams apart that the client sends.
-/

namespace Pyrn.Server

open PackedStruct

/-- A calculator of `multiConfig`: the numbers of its JSON object. -/
structure Calc where
  rxAdd : Nat
  chunks : List (Nat × Nat)
  deriving DecidableEq, Repr

/-- The loop over the calculators; `none` is a number that its field cannot hold. -/
def packCalcs : List Calc → Option (List UInt8)
  | [] => some []
  | c :: calcs => do
      let conf ← pack [(4,c.rxAdd),(1,c.chunks.length)]
      let chunks ← c.chunks.mapM fun chunk => pack [(1,chunk.1),(1,chunk.2)]
      let rest ← packCalcs calcs
      return conf ++ chunks.flatten ++ rest

/-- `none` is an error: no configuration of that index, or a number out of range. -/
def getConfig (multiConfig : List (List Calc)) (index : UInt8) : Option (List UInt8) := do
  let calcs ← multiConfig[index.toNat]?
  let conf ← pack [(1,calcs.length)]
  let rest ← packCalcs calcs
  return conf ++ rest

inductive Failure
  | structError
  | outOfFuel
  deriving DecidableEq, Repr

inductive Address
  | gps
  | imu
  | rxAdd (number : Nat)
  deriving DecidableEq, Repr

/-- The dictionary of a record. -/
structure Entry (Time : Type) where
  addr : Address
  chunks : List (Nat × Nat)
  datas : List (List String)
  dt : Time
  deriving DecidableEq, Repr

/-- The first loop: the records behind their sizes, from an offset on. -/
def splitRecords (rdata : List UInt8) : Nat → Nat → Except Failure (List (List UInt8))
  | 0, _ => .error .outOfFuel
  | fuel + 1, dec =>
      match unpack [2] (slice rdata dec (dec + 2)) with
      | some [packLen] =>
          let data := slice rdata (dec + 2) (dec + packLen + 2)
          if dec + (packLen + 2) ≥ rdata.length then .ok [data]
          else do
            let datas ← splitRecords rdata fuel (dec + (packLen + 2))
            return data :: datas
      | _ => .error .structError

def addressOf (rxAdd : Nat) : Address :=
  if rxAdd = 0x5A5A5A5A then .gps else if rxAdd = 0xA5A5A5A5 then .imu else .rxAdd rxAdd

def unpackChunk (data : List UInt8) (i : Nat) : Except Failure (Nat × Nat) :=
  match unpack [1,1] (slice data (9 + i * 2) (9 + i * 2 + 2)) with
  | some [start,len] => .ok (start,len)
  | _ => .error .structError

def hexDigit (value : Nat) : Char := Char.ofNat (if value < 10 then 48 + value else 87 + value)

/-- A byte in two hexadecimal digits. -/
def formatByte (c : UInt8) : String :=
  String.ofList [hexDigit (c.toNat / 16),hexDigit (c.toNat % 16)]

def hChunk (chunk : List UInt8) : String := chunk.foldl (fun text c => text ++ formatByte c) ""

/-- The loop that deals the data out to the chunks in turn. -/
def dealData (chunks : List (Nat × Nat)) (rawData : List UInt8) :
    Nat → Nat → Nat → List (List String) → Except Failure (List (List String))
  | 0, _, _, _ => .error .outOfFuel
  | fuel + 1, i, j, datas =>
      if i < rawData.length then
        let turn := j % chunks.length
        let offset := (chunks.getD turn (0,0)).2
        let chunk := slice rawData i (i + offset)
        dealData chunks rawData fuel (i + offset) (j + 1)
          (datas.modify turn fun values => values ++ [hChunk chunk])
      else .ok datas

/-- One round of the second loop; a record without chunks gives no entry. -/
def parseRecord {Time : Type} (fuel : Nat) (now : Time) (data : List UInt8) :
    Except Failure (Option (Entry Time)) :=
  match unpack [4,2,2,1] (slice data 0 9) with
  | some [rxAdd,_,_,nChunks] => do
      let chunks ← (List.range nChunks).mapM (unpackChunk data)
      let rawData := data.drop (9 + nChunks * 2)
      if chunks.length ≠ 0 then
        let datas ← dealData chunks rawData fuel 0 0 (chunks.map fun _ => [])
        return some ⟨addressOf rxAdd,chunks,datas,now⟩
      else return none
  | _ => .error .structError

/-- The second loop; `clock` is `time.time()` in each round. -/
def parseRecords {Time : Type} (fuel : Nat) (clock : Nat → Time) :
    Nat → List (List UInt8) → Except Failure (List (Entry Time))
  | _, [] => .ok []
  | round, data :: datas => do
      let entry ← parseRecord fuel (clock round) data
      let entries ← parseRecords fuel clock (round + 1) datas
      return entry.toList ++ entries

def parseFrame {Time : Type} (fuel : Nat) (clock : Nat → Time) (rdata : List UInt8) :
    Except Failure (List (Entry Time)) := do
  let datas ← splitRecords rdata fuel 3
  parseRecords fuel clock 0 datas

end Pyrn.Server
