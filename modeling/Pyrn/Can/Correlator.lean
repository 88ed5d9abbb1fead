import Pyrn.Can.Recorder

/-!
# The correlator

`CANCorrelator` keeps a list of frames and looks for the bytes that change between two similar
frames. Every block of changed bytes belongs to a variable, which collects its values.
-/

namespace Pyrn.Can

open LittleEndian

/-- `sizeof(frameHdr)`, a packed structure of an identifier, a size and the size of a value. -/
def sizeofFrameHdr : Nat := 7

/-- The values of a variable. `data` is its allocated memory, with the header in front. -/
structure CANVariableData where
  data : List UInt8
  n : Nat
  m : Nat
  sz : Nat
  tSz : Nat
  deriving DecidableEq, Repr

namespace CANVariableData

/-- The constructor with the memory that it is given; the size in the header is not set. -/
def new (memory : List UInt8) (id : UInt32) (allocSz typeSz : Nat) : CANVariableData where
  data := Buffer.splice (Buffer.splice memory 0 (toBytes 4 id.toNat)) 6 [UInt8.ofNat typeSz]
  n := sizeofFrameHdr
  m := allocSz
  sz := 0
  tSz := typeSz

/-- A full buffer and a value of another size drop the value. -/
def addData (st : CANVariableData) (d : List UInt8) : CANVariableData :=
  if st.n + st.tSz < st.m then
    if d.length = st.tSz then
      { st with
        data := Buffer.splice st.data st.n d
        n := st.n + st.tSz
        sz := st.sz + st.tSz }
    else st
  else st

end CANVariableData

/-- `data` are the bytes of the frame, as many as its length tells. -/
structure FrameEntry where
  id : UInt32
  data : List UInt8
  deriving DecidableEq, Repr

structure VariableEntry where
  id : UInt32
  index : Int
  len : Nat
  vData : CANVariableData
  deriving DecidableEq, Repr

def canFrameMaxLen : Nat := 64

def canMaxFrames : Nat := 40

def canMaxVars : Nat := 40

/-- The used entries of the two lists; `curFrames` and `curVariables` count them. -/
structure CANCorrelator where
  frameList : List FrameEntry
  variableList : List VariableEntry
  deriving DecidableEq, Repr

/-- What a callback hands over: its number, and the identifier and the bytes of the message. -/
structure CorrelatorEvent where
  ID : UInt32
  id : UInt32
  canData : List UInt8
  deriving DecidableEq, Repr

namespace CANCorrelator

/-- The constructor. -/
def initial : CANCorrelator := ⟨[],[]⟩

def curFrames (st : CANCorrelator) : Nat := st.frameList.length

def curVariables (st : CANCorrelator) : Nat := st.variableList.length

/-- How many bytes agree, which `BasicCorrelation` divides by the length. -/
def agreeing (dataOne dataTwo : List UInt8) : Nat :=
  (dataOne.zip dataTwo).countP fun pair => pair.1 = pair.2

/-- `BasicCorrelation` is greater than one half. An empty frame makes it no number, which is
greater than nothing. -/
def correlated (dataOne dataTwo : List UInt8) : Bool :=
  dataOne.length < 2 * agreeing dataOne dataTwo

def searchSimilarFrame (st : CANCorrelator) (id : UInt32) (data : List UInt8) : Int :=
  match st.frameList.findIdx? fun fe =>
    fe.id = id ∧ fe.data.length = data.length ∧ correlated data fe.data with
  | some i => i
  | none => -1

def searchSimilarVariable (st : CANCorrelator) (id : UInt32) (index : Int) (len : Nat) : Int :=
  match st.variableList.findIdx? fun ve => ve.id = id ∧ ve.index = index ∧ ve.len = len with
  | some i => i
  | none => -1

/-- `none` is a write behind the list, or an object at address zero. `memory` tells for every
new variable whether there is memory for it, and what that memory holds. -/
def insertNewVariable (memory : Nat → Option (List UInt8)) (st : CANCorrelator) (id : UInt32)
    (s : Int) (c : Nat) : Option (Int × CANCorrelator) :=
  if st.curVariables < canMaxVars then do
    let block ← memory st.curVariables
    let entry : VariableEntry := ⟨id,s,c,.new block id 128 c⟩
    return (st.curVariables,{ st with variableList := st.variableList ++ [entry] })
  else none

/-- The two places of `TrackVariations` that store a block differ in the test of the index. -/
def storeBlock (found : Int → Bool) (memory : Nat → Option (List UInt8)) (st : CANCorrelator)
    (id : UInt32) (s : Int) (varBlock : List UInt8) : Option CANCorrelator := do
  let index := st.searchSimilarVariable id s varBlock.length
  let (index,st) ← if found index = true then some (index,st)
    else st.insertNewVariable memory id s varBlock.length
  return { st with
    variableList := st.variableList.modify index.toNat fun ve =>
      { ve with vData := ve.vData.addData varBlock } }

/-- A block that a byte without change ends. -/
def storeInside (memory : Nat → Option (List UInt8)) (st : CANCorrelator) (id : UInt32) (s : Int)
    (varBlock : List UInt8) : Option CANCorrelator :=
  st.storeBlock (fun index => index ≥ 0) memory id s varBlock

/-- A block that the end of the frame ends. -/
def storeAtEnd (memory : Nat → Option (List UInt8)) (st : CANCorrelator) (id : UInt32) (s : Int)
    (varBlock : List UInt8) : Option CANCorrelator :=
  st.storeBlock (fun index => index > 0) memory id s varBlock

/-- The size of `varBlock`. -/
def varBlockSize : Nat := 16

/-- The loop of `TrackVariations` from a byte on, with the block that is open. -/
def trackFrom (memory : Nat → Option (List UInt8)) (id : UInt32) :
    Nat → Int → List UInt8 → List (UInt8 × UInt8) → CANCorrelator → Option CANCorrelator
  | _, s, varBlock, [], st =>
      if varBlock.length ≠ 0 then st.storeAtEnd memory id s varBlock else some st
  | i, s, varBlock, (one,two) :: rest, st =>
      if one ≠ two then
        -- the seventeenth byte of a block lies behind the local buffer
        if varBlock.length < varBlockSize then
          trackFrom memory id (i + 1) (if s = -1 then i else s) (varBlock ++ [one]) rest st
        else none
      else if varBlock.length ≠ 0 then do
        let st ← st.storeInside memory id s varBlock
        trackFrom memory id (i + 1) (-1) [] rest st
      else trackFrom memory id (i + 1) s varBlock rest st

def trackVariations (memory : Nat → Option (List UInt8)) (st : CANCorrelator) (id : UInt32)
    (dataOne dataTwo : List UInt8) : Option CANCorrelator :=
  trackFrom memory id 0 (-1) [] (dataOne.zip dataTwo) st

/-- `none` is a write outside the memory that is meant. A frame that resembles no other is
stored behind the others, at index forty too. -/
def event (memory : Nat → Option (List UInt8)) (st : CANCorrelator) (ev : CorrelatorEvent) :
    Option CANCorrelator :=
  if ev.ID &&& 0x0f = canCallback then
    if ev.canData.length > canFrameMaxLen then some st
    else
      let index := st.searchSimilarFrame ev.id ev.canData
      if index ≥ 0 then do
        let frame ← st.frameList[index.toNat]?
        let st ← st.trackVariations memory ev.id ev.canData frame.data
        return { st with
          frameList := st.frameList.modify index.toNat fun fe => { fe with data := ev.canData } }
      else if st.curFrames ≤ canMaxFrames then
        if st.curFrames < canMaxFrames then
          some { st with frameList := st.frameList ++ [⟨ev.id,ev.canData⟩] }
        else none
      else some st
  else some st

end CANCorrelator

end Pyrn.Can
