import Mathlib.Data.UInt
import Pyrn.Can.Message
import Pyrn.Can.RecorderCalculator
import Pyrn.Framework.Buffer

/-!
# The recorder

`CANRecorder` learns the mean distance between the frames that carry its address, then records
the configured bytes of one frame and keeps them until they are captured. `event` and `Capture`
are one step each.
-/

namespace Pyrn.Can

open LittleEndian

def canCallback : UInt32 := 0x01

def canFramesToWait : Nat := 32

def netFrameAllocSz : Nat := 64

def netFrameHeaderSize : Nat := 8

/-- `tmp` holds integers, as their bits. -/
structure LearningStuffs where
  isLearning : Bool
  nTicks : Nat
  tmp : List UInt32
  oldTick : UInt16
  deriving DecidableEq, Repr

/-- `dt` and `nSamples` point into `dataResult`. -/
structure CANRecorder where
  calculator : CANRecorderCalculator
  activated : Bool
  lStruct : LearningStuffs
  dataResult : List UInt8
  offset : Nat
  nPoints : Nat
  nPointsMax : Nat
  deriving DecidableEq, Repr

/-- `none` is the null pointer. -/
def CANRecorderCalculator.getRecordEntry (calculator : CANRecorderCalculator) (index : Nat) :
    Option CANRecorderData :=
  if index < calculator.calcHeader.nChunks.toNat then calculator.recordEntries[index]? else none

namespace CANRecorder

/-- Where the data of a frame begins. -/
def headerSize (calculator : CANRecorderCalculator) : Nat :=
  netFrameHeaderSize + 1 + calculator.calcHeader.nChunks.toNat * 2

/-- The loop of the constructor over the entries, from entry `i` on. -/
def putEntries (calculator : CANRecorderCalculator) :
    Nat → Nat → List UInt8 → Option (List UInt8)
  | 0, _, dataResult => some dataResult
  | left + 1, i, dataResult => do
      let entry ← calculator.getRecordEntry i
      let dataResult ← Buffer.store dataResult (9 + i * 2 : Nat) [entry.start]
      let dataResult ← Buffer.store dataResult (10 + i * 2 : Nat) [entry.len]
      putEntries calculator left (i + 1) dataResult

/-- The constructor, over the two blocks that the allocator hands out; `none` is a write outside
of them. -/
def new (calculator : CANRecorderCalculator) (tmp : List UInt32) (memory : List UInt8) :
    Option CANRecorder := do
  let n := calculator.calcHeader.nChunks
  let dataResult ← Buffer.store memory 0 (List.replicate (8 + 1 + n.toNat * 2) 0)
  let dataResult ← Buffer.store dataResult 0 (toBytes 4 calculator.calcHeader.rxAddr.toNat)
  let dataResult ← Buffer.store dataResult 8 [n]
  let dataResult ← putEntries calculator n.toNat 0 dataResult
  return {
    calculator := calculator
    activated := true
    lStruct := ⟨true,canFramesToWait,tmp,0⟩
    dataResult := dataResult
    offset := headerSize calculator
    nPoints := 0
    nPointsMax := 1 }

/-- The part of `event` while learning, at the time `tick`. -/
def learn (st : CANRecorder) (tick : UInt32) : Option CANRecorder :=
  let lStruct := st.lStruct
  if lStruct.nTicks ≠ 0 then
    if lStruct.oldTick = 0 then
      some { st with lStruct := { lStruct with oldTick := tick.toUInt16 } }
    else do
      let tmp ← Buffer.store lStruct.tmp (lStruct.nTicks - 1) [lStruct.oldTick.toUInt32 - tick]
      return { st with lStruct := { lStruct with
        tmp := tmp
        oldTick := tick.toUInt16
        nTicks := lStruct.nTicks - 1 } }
  else do
    let ticks ← Buffer.load lStruct.tmp 0 canFramesToWait
    let dt := (ticks.sum >>> 5).toUInt16
    let dataResult ← Buffer.store st.dataResult 4 (toBytes 2 dt.toNat)
    return { st with
      dataResult := dataResult
      lStruct := { lStruct with isLearning := false } }

/-- The loop of `event` over the entries, from entry `i` on: the offset and the data behind it. -/
def addEntries (calculator : CANRecorderCalculator) (data : List UInt8) :
    Nat → Nat → Nat × List UInt8 → Option (Nat × List UInt8)
  | 0, _, st => some st
  | left + 1, i, (offset,dataResult) => do
      let entry ← calculator.getRecordEntry i
      if offset + entry.len.toNat < netFrameAllocSz then
        let bytes ← Buffer.load data entry.start.toNat entry.len.toNat
        let dataResult ← Buffer.store dataResult offset bytes
        addEntries calculator data left (i + 1) (offset + entry.len.toNat,dataResult)
      else addEntries calculator data left (i + 1) (offset,dataResult)

/-- `event` at the time `tick`; `none` is a copy outside a block. -/
def event (st : CANRecorder) (ID : UInt32) (msg : CANMessage) (tick : UInt32) :
    Option CANRecorder :=
  if ID &&& 0x0f = canCallback ∧ st.activated = true then
    if msg.id = st.calculator.calcHeader.rxAddr then
      if st.lStruct.isLearning = true then st.learn tick
      else if st.nPoints < st.nPointsMax then do
        let n := st.calculator.calcHeader.nChunks.toNat
        let (offset,dataResult) ← addEntries st.calculator msg.data n 0 (st.offset,st.dataResult)
        return { st with
          offset := offset
          dataResult := dataResult
          nPoints := st.nPoints + 1 }
      else some st
    else some st
  else some st

/-- The condition of `event` on the frame. -/
def Hears (st : CANRecorder) (ID : UInt32) (msg : CANMessage) : Prop :=
  (ID &&& 0x0f = canCallback ∧ st.activated = true) ∧ msg.id = st.calculator.calcHeader.rxAddr

instance (st : CANRecorder) (ID : UInt32) (msg : CANMessage) : Decidable (st.Hears ID msg) :=
  inferInstanceAs (Decidable (_ ∧ _))

/-- `Capture` into a buffer of `len` bytes: what it leaves there. -/
def capture (st : CANRecorder) (len : Nat) : Option (List UInt8 × CANRecorder) :=
  if st.lStruct.isLearning = false ∧ st.nPoints ≠ 0 then
    let reset := { st with nPoints := 0, offset := headerSize st.calculator }
    if len > st.offset then do
      let dataResult ← Buffer.store st.dataResult 6 (toBytes 2 st.offset)
      let data ← Buffer.load dataResult 0 st.offset
      return (data,{ reset with dataResult := dataResult })
    else some ([],reset)
  else some ([],st)

/-- The offset behind an entry: an entry that does not fit is left out. -/
def addLen (offset : Nat) (entry : CANRecorderData) : Nat :=
  if offset + entry.len.toNat < netFrameAllocSz then offset + entry.len.toNat else offset

/-- The bytes of a frame that the loop over the entries keeps, from an offset on. -/
def keptBytes (data : List UInt8) : Nat → List CANRecorderData → List UInt8
  | _, [] => []
  | offset, entry :: entries =>
      if offset + entry.len.toNat < netFrameAllocSz then
        (data.drop entry.start.toNat).take entry.len.toNat ++
          keptBytes data (offset + entry.len.toNat) entries
      else keptBytes data offset entries

/-- The number of the entries and the entries, as the header announces them. -/
def announced (calculator : CANRecorderCalculator) : List UInt8 :=
  calculator.calcHeader.nChunks ::
    calculator.recordEntries.flatMap fun entry => [entry.start,entry.len]

/-- The size of what is recorded of a frame. -/
def recordSize (calculator : CANRecorderCalculator) : Nat :=
  calculator.recordEntries.foldl addLen (headerSize calculator)

end CANRecorder

/-- The calculators that the parser and the validation let through. -/
structure CANRecorderCalculator.Valid (calculator : CANRecorderCalculator) : Prop where
  chunks_le : calculator.calcHeader.nChunks.toNat ≤ 7
  entries_length : calculator.recordEntries.length = calculator.calcHeader.nChunks.toNat
  inFrame : ∀ entry ∈ calculator.recordEntries, entry.InFrame

/-- The invariant of a recorder: what it holds is empty or one whole record. -/
structure CANRecorder.Sound (st : CANRecorder) : Prop where
  valid : st.calculator.Valid
  activated : st.activated = true
  tmp_length : st.lStruct.tmp.length = canFramesToWait
  nTicks_le : st.lStruct.nTicks ≤ canFramesToWait
  dataResult_length : st.dataResult.length = netFrameAllocSz
  nPointsMax : st.nPointsMax = 1
  points : st.nPoints = 0 ∧ st.offset = headerSize st.calculator ∨
    st.nPoints = 1 ∧ st.offset = recordSize st.calculator

theorem CANRecorderCalculator.parsable_of_ready (old : CANRecorderCalculator) {buff : Memory}
    (hready : (old.setData buff).object.ready = true) :
    buff 0 = canRecorderHdrType ∧ Parsable buff := by
  by_cases htype : buff 0 = canRecorderHdrType
  · by_cases hparse : Parsable buff
    · exact ⟨htype,hparse⟩
    · obtain ⟨object,hset,hnot⟩ := setData_of_not_parsable old htype hparse
      rw [hset,hnot] at hready
      cases hready
  · rw [setData,parse,if_neg htype] at hready
    cases hready

/-- A calculator that is ready has between one and seven chunks inside the frame. -/
theorem CANRecorderCalculator.valid_of_ready (old : CANRecorderCalculator) {buff : Memory}
    (hready : (old.setData buff).object.ready = true) : (old.setData buff).object.Valid := by
  obtain ⟨htype,hparse⟩ := parsable_of_ready old hready
  rw [setData_of_parsable old htype hparse] at hready ⊢
  refine ⟨hparse.2,?_,(validEntries_iff _).mp hready⟩
  rw [entriesOf,List.length_map,List.length_range]
  rfl

theorem CANRecorderCalculator.chunks_pos_of_ready (old : CANRecorderCalculator) {buff : Memory}
    (hready : (old.setData buff).object.ready = true) :
    0 < (old.setData buff).object.calcHeader.nChunks.toNat := by
  obtain ⟨htype,hparse⟩ := parsable_of_ready old hready
  rw [setData_of_parsable old htype hparse]
  exact hparse.1

namespace CANRecorder

section

variable {calculator : CANRecorderCalculator} {dataResult : List UInt8}

theorem headerSize_le (hvalid : calculator.Valid) : headerSize calculator ≤ 23 := by
  have hchunks := hvalid.chunks_le
  rw [headerSize,netFrameHeaderSize]
  omega

theorem addLen_lt {offset : Nat} (hoffset : offset < netFrameAllocSz) (entry : CANRecorderData) :
    addLen offset entry < netFrameAllocSz := by
  rw [addLen]
  split
  · assumption
  · exact hoffset

theorem foldl_addLen_lt (entries : List CANRecorderData) {offset : Nat}
    (hoffset : offset < netFrameAllocSz) : entries.foldl addLen offset < netFrameAllocSz := by
  induction entries generalizing offset with
  | nil => exact hoffset
  | cons entry entries ih => exact ih (addLen_lt hoffset entry)

theorem recordSize_lt (hvalid : calculator.Valid) : recordSize calculator < netFrameAllocSz := by
  apply foldl_addLen_lt
  have hheader := headerSize_le hvalid
  rw [netFrameAllocSz]
  omega

theorem foldl_addLen_ge (entries : List CANRecorderData) (offset : Nat) :
    offset ≤ entries.foldl addLen offset := by
  induction entries generalizing offset with
  | nil => exact le_refl _
  | cons entry entries ih =>
      apply le_trans _ (ih (addLen offset entry))
      rw [addLen]
      split <;> omega

theorem recordSize_pos : 0 < recordSize calculator := by
  have hge := foldl_addLen_ge calculator.recordEntries (headerSize calculator)
  rw [recordSize]
  rw [headerSize,netFrameHeaderSize] at hge ⊢
  omega

theorem headerSize_eq (hvalid : calculator.Valid) :
    headerSize calculator = netFrameHeaderSize + (announced calculator).length := by
  have hentries : (calculator.recordEntries.flatMap fun entry => [entry.start,entry.len]).length =
      calculator.calcHeader.nChunks.toNat * 2 := by
    simp [List.length_flatMap,hvalid.entries_length]
  rw [headerSize,announced,List.length_cons,hentries]
  omega

theorem getRecordEntry_eq (hvalid : calculator.Valid) (i : Nat) :
    calculator.getRecordEntry i = calculator.recordEntries[i]? := by
  rw [CANRecorderCalculator.getRecordEntry]
  split
  · rfl
  · rw [List.getElem?_eq_none]
    rw [hvalid.entries_length]
    omega

theorem putEntries_eq (hvalid : calculator.Valid) {left i : Nat}
    (hleft : i + left = calculator.calcHeader.nChunks.toNat)
    (hlength : dataResult.length = netFrameAllocSz) {known : List UInt8}
    (hknown : known <+: dataResult.drop netFrameHeaderSize) (hi : known.length = 1 + i * 2) :
    ∃ stored, putEntries calculator left i dataResult = some stored ∧
      stored.length = netFrameAllocSz ∧
      known ++ ((calculator.recordEntries.drop i).flatMap fun entry => [entry.start,entry.len]) <+:
        stored.drop netFrameHeaderSize := by
  induction left generalizing i dataResult known with
  | zero =>
      have hall : calculator.recordEntries.drop i = [] := by
        apply List.drop_eq_nil_of_le
        rw [hvalid.entries_length]
        omega
      rw [hall,List.flatMap_nil,List.append_nil]
      exact ⟨dataResult,rfl,hlength,hknown⟩
  | succ left ih =>
      have hchunks := hvalid.chunks_le
      have hentry : i < calculator.recordEntries.length := by
        rw [hvalid.entries_length]
        omega
      let entry : CANRecorderData := calculator.recordEntries[i]
      have hone (byte : UInt8) : [byte].length = 1 := rfl
      have hroom : 10 + i * 2 + 1 ≤ dataResult.length := by
        rw [hlength,netFrameAllocSz]
        omega
      have hfits : 9 + i * 2 + [entry.start].length ≤ dataResult.length := by
        rw [hone]
        omega
      have hlength₁ := Buffer.splice_length hfits
      have hfits₁ : 10 + i * 2 + [entry.len].length ≤
          (Buffer.splice dataResult (9 + i * 2) [entry.start]).length := by
        rw [hone,hlength₁]
        exact hroom
      have hlength₂ := Buffer.splice_length hfits₁
      have hknown₁ := Buffer.prefix_splice hknown
        (by rw [hi,netFrameHeaderSize]; omega) hfits
      have hknown₂ := Buffer.prefix_splice hknown₁
        (by rw [List.length_append,hi,netFrameHeaderSize,hone]; omega) hfits₁
      obtain ⟨stored,hput,hstored,hrest⟩ :=
        ih (show i + 1 + left = calculator.calcHeader.nChunks.toNat by omega)
          (hlength₂.trans (hlength₁.trans hlength)) hknown₂
          (by simp only [List.length_append,hone,hi]; omega)
      refine ⟨stored,?_,hstored,?_⟩
      · rw [putEntries,getRecordEntry_eq hvalid,List.getElem?_eq_getElem hentry]
        simp only [Option.bind_eq_bind,Option.bind_some]
        rw [Buffer.store_of_le hfits]
        simp only [Option.bind_some]
        rw [Buffer.store_of_le hfits₁]
        exact hput
      · rw [List.drop_eq_getElem_cons hentry,List.flatMap_cons]
        simpa [List.append_assoc] using hrest

theorem addEntries_eq (hvalid : calculator.Valid) {data : List UInt8} (hdata : data.length = 8)
    {left i offset : Nat} (hleft : i + left = calculator.calcHeader.nChunks.toNat)
    (hoffset : offset < netFrameAllocSz) (hlength : dataResult.length = netFrameAllocSz)
    {known : List UInt8} (hknown : known <+: dataResult.drop netFrameHeaderSize)
    (hend : offset = netFrameHeaderSize + known.length) :
    ∃ stored, addEntries calculator data left i (offset,dataResult) =
        some ((calculator.recordEntries.drop i).foldl addLen offset,stored) ∧
      stored.length = netFrameAllocSz ∧
      known ++ keptBytes data offset (calculator.recordEntries.drop i) <+:
        stored.drop netFrameHeaderSize := by
  induction left generalizing i offset dataResult known with
  | zero =>
      have hall : calculator.recordEntries.drop i = [] := by
        apply List.drop_eq_nil_of_le
        rw [hvalid.entries_length]
        omega
      rw [hall,keptBytes,List.append_nil]
      exact ⟨dataResult,rfl,hlength,hknown⟩
  | succ left ih =>
      have hi : i < calculator.recordEntries.length := by
        rw [hvalid.entries_length]
        omega
      have hframe := hvalid.inFrame _ (List.getElem_mem hi)
      rw [CANRecorderData.InFrame] at hframe
      rw [addEntries,getRecordEntry_eq hvalid,List.getElem?_eq_getElem hi,
        List.drop_eq_getElem_cons hi,List.foldl_cons,addLen,keptBytes]
      simp only [Option.bind_eq_bind,Option.bind_some]
      by_cases hroom : offset + calculator.recordEntries[i].len.toNat < netFrameAllocSz
      · have hload : Buffer.load data calculator.recordEntries[i].start.toNat
            calculator.recordEntries[i].len.toNat = some ((data.drop
              calculator.recordEntries[i].start.toNat).take
                calculator.recordEntries[i].len.toNat) :=
          Buffer.load_of_le (by omega)
        have htake : ((data.drop calculator.recordEntries[i].start.toNat).take
            calculator.recordEntries[i].len.toNat).length =
              calculator.recordEntries[i].len.toNat := by
          rw [List.length_take,List.length_drop]
          omega
        rw [if_pos hroom,if_pos hroom,if_pos hroom,hload]
        simp only [Option.bind_some]
        rw [Buffer.store_of_le (by omega)]
        simp only [Option.bind_some]
        rw [← List.append_assoc]
        apply ih (by omega) hroom
        · rw [Buffer.splice_length (by omega),hlength]
        · exact Buffer.prefix_splice hknown hend (by omega)
        · rw [List.length_append,htake,hend,Nat.add_assoc]
      · rw [if_neg hroom,if_neg hroom,if_neg hroom]
        exact ih (by omega) hoffset hlength hknown hend

end

section

variable {st : CANRecorder} {ID : UInt32} {msg : CANMessage} {tick : UInt32}

/-- How many frames of its address a recorder still needs until it holds a record. -/
def remaining (st : CANRecorder) : Nat :=
  if st.lStruct.isLearning = true then
    (if st.lStruct.oldTick = 0 then 1 else 0) + st.lStruct.nTicks + 2
  else if st.nPoints = 0 then 1 else 0

/-- What the constructor leaves in the two blocks. -/
theorem new_eq {calculator : CANRecorderCalculator} (hvalid : calculator.Valid)
    (tmp : List UInt32) {memory : List UInt8} (hmemory : memory.length = netFrameAllocSz) :
    ∃ dataResult, new calculator tmp memory = some ⟨calculator,true,
        ⟨true,canFramesToWait,tmp,0⟩,dataResult,headerSize calculator,0,1⟩ ∧
      dataResult.length = netFrameAllocSz ∧
      announced calculator <+: dataResult.drop netFrameHeaderSize := by
  have hchunks := hvalid.chunks_le
  rw [netFrameAllocSz] at hmemory
  obtain ⟨cleared,hclear,hlength₁⟩ := Buffer.exists_store memory
    (List.replicate (8 + 1 + calculator.calcHeader.nChunks.toNat * 2) 0) 0
    (by rw [List.length_replicate]; omega)
  obtain ⟨addressed,haddr,hlength₂⟩ := Buffer.exists_store cleared
    (toBytes 4 calculator.calcHeader.rxAddr.toNat) 0 (by rw [toBytes_length]; omega)
  have hfits : 8 + [calculator.calcHeader.nChunks].length ≤ addressed.length := by
    rw [List.length_singleton]
    omega
  have hlength₃ := Buffer.splice_length hfits
  have hcounted := Buffer.prefix_splice List.nil_prefix rfl hfits
  obtain ⟨dataResult,hentries,hlength,hannounced⟩ := putEntries_eq hvalid (Nat.zero_add _)
    (show (Buffer.splice addressed 8 [calculator.calcHeader.nChunks]).length = netFrameAllocSz by
      rw [hlength₃,hlength₂,hlength₁,hmemory]
      rfl) hcounted rfl
  refine ⟨dataResult,?_,hlength,hannounced⟩
  rw [Nat.cast_zero] at hclear haddr
  have hcount := Buffer.store_of_le hfits
  rw [Nat.cast_ofNat] at hcount
  rw [new]
  simp only [Option.bind_eq_bind,Option.bind_some,hclear,haddr,hcount,hentries]
  rfl

theorem new_sound {calculator : CANRecorderCalculator} (hvalid : calculator.Valid)
    {tmp : List UInt32} (htmp : tmp.length = canFramesToWait) {memory : List UInt8}
    (hmemory : memory.length = netFrameAllocSz) :
    ∃ st,new calculator tmp memory = some st ∧ st.Sound ∧ st.calculator = calculator ∧
      st.lStruct = ⟨true,canFramesToWait,tmp,0⟩ := by
  obtain ⟨dataResult,hnew,hlength,-⟩ := new_eq hvalid tmp hmemory
  exact ⟨_,hnew,⟨hvalid,rfl,htmp,le_refl _,hlength,rfl,Or.inl ⟨rfl,rfl⟩⟩,rfl,rfl⟩

section Equations

theorem event_of_not_hears (hnot : ¬st.Hears ID msg) : st.event ID msg tick = some st := by
  rw [Hears,not_and] at hnot
  rw [event]
  by_cases hID : ID &&& 0x0f = canCallback ∧ st.activated = true
  · rw [if_pos hID,if_neg (hnot hID)]
  · rw [if_neg hID]

/-- A frame of another address. -/
theorem event_of_ne (hid : msg.id ≠ st.calculator.calcHeader.rxAddr) :
    st.event ID msg tick = some st :=
  event_of_not_hears fun hhears => hid hhears.2

theorem event_of_learning (hhears : st.Hears ID msg) (hlearning : st.lStruct.isLearning = true) :
    st.event ID msg tick = st.learn tick := by
  rw [event,if_pos hhears.1,if_pos hhears.2,if_pos hlearning]

/-- A recorder that holds a frame takes no other. -/
theorem event_of_full (hlearning : st.lStruct.isLearning ≠ true)
    (hfull : ¬st.nPoints < st.nPointsMax) : st.event ID msg tick = some st := by
  rw [event,if_neg hlearning,if_neg hfull,ite_self,ite_self]

/-- The first tick, and one behind a tick that is taken for none, is only remembered. -/
theorem learn_of_not_started (hn : st.lStruct.nTicks ≠ 0) (hold : st.lStruct.oldTick = 0) :
    st.learn tick =
      some { st with lStruct := { st.lStruct with oldTick := tick.toUInt16 } } := by
  rw [learn]
  simp only [if_pos hn,if_pos hold]

theorem learn_of_started (hn : st.lStruct.nTicks ≠ 0) (hold : st.lStruct.oldTick ≠ 0)
    (hroom : st.lStruct.nTicks ≤ st.lStruct.tmp.length) :
    st.learn tick = some { st with lStruct := { st.lStruct with
      tmp := Buffer.splice st.lStruct.tmp (st.lStruct.nTicks - 1)
        [st.lStruct.oldTick.toUInt32 - tick]
      oldTick := tick.toUInt16
      nTicks := st.lStruct.nTicks - 1 } } := by
  have hindex : (st.lStruct.nTicks - 1 : Int) = (st.lStruct.nTicks - 1 : Nat) := by omega
  have hstore := @Buffer.store_cast _ st.lStruct.tmp [st.lStruct.oldTick.toUInt32 - tick] _
    (st.lStruct.nTicks - 1) hindex (by rw [List.length_singleton]; omega)
  rw [learn]
  simp only [if_pos hn,if_neg hold,hstore]
  rfl

/-- The distance that is learnt from the samples. -/
def learntDt (tmp : List UInt32) : UInt16 := (tmp.sum >>> 5).toUInt16

theorem learn_of_done (hn : st.lStruct.nTicks = 0)
    (htmp : st.lStruct.tmp.length = canFramesToWait)
    (hresult : st.dataResult.length = netFrameAllocSz) :
    st.learn tick = some { st with
      dataResult := Buffer.splice st.dataResult 4 (toBytes 2 (learntDt st.lStruct.tmp).toNat)
      lStruct := { st.lStruct with isLearning := false } } := by
  have hload : Buffer.load st.lStruct.tmp 0 canFramesToWait = some st.lStruct.tmp := by
    rw [Buffer.load_zero_of_le (le_of_eq htmp.symm),← htmp,List.take_length]
  have hstore := @Buffer.store_of_le _ st.dataResult
    (toBytes 2 (learntDt st.lStruct.tmp).toNat) 4
    (by rw [toBytes_length,hresult,netFrameAllocSz]; omega)
  rw [Nat.cast_ofNat,learntDt] at hstore
  rw [learn]
  simp only [hn,ne_eq,not_true_eq_false,if_false,Option.bind_eq_bind,hload,Option.bind_some,
    hstore]
  rfl

end Equations

/-- A sound recorder that has learnt and is empty takes the frame. -/
theorem event_of_empty (hst : st.Sound) (hhears : st.Hears ID msg)
    (hlearning : st.lStruct.isLearning ≠ true) (hempty : st.nPoints = 0) {known : List UInt8}
    (hknown : known <+: st.dataResult.drop netFrameHeaderSize)
    (hend : headerSize st.calculator = netFrameHeaderSize + known.length) :
    ∃ stored, st.event ID msg tick = some { st with
        offset := recordSize st.calculator
        dataResult := stored
        nPoints := 1 } ∧
      stored.length = netFrameAllocSz ∧
      known ++ keptBytes msg.data (headerSize st.calculator) st.calculator.recordEntries <+:
        stored.drop netFrameHeaderSize := by
  have hheader := headerSize_le hst.valid
  have hoffset : st.offset = headerSize st.calculator := by
    rcases hst.points with ⟨-,hoffset⟩ | ⟨hpoints,-⟩
    · exact hoffset
    · rw [hempty] at hpoints
      cases hpoints
  obtain ⟨stored,hadd,hlength,hkept⟩ := addEntries_eq hst.valid msg.data_length
    (Nat.zero_add st.calculator.calcHeader.nChunks.toNat)
    (show headerSize st.calculator < netFrameAllocSz by rw [netFrameAllocSz]; omega)
    hst.dataResult_length hknown hend
  rw [List.drop_zero] at hadd hkept
  refine ⟨stored,?_,hlength,hkept⟩
  rw [event,if_pos hhears.1,if_pos hhears.2,if_neg hlearning,
    if_pos (by rw [hempty,hst.nPointsMax]; exact Nat.one_pos),hoffset]
  simp only [hadd,Option.bind_eq_bind,Option.bind_some,hempty]
  rfl

/-- What lies behind the header of the frame, whatever it is. -/
theorem exists_known (hst : st.Sound) : ∃ known : List UInt8,
    known <+: st.dataResult.drop netFrameHeaderSize ∧
      headerSize st.calculator = netFrameHeaderSize + known.length := by
  have hheader := headerSize_le hst.valid
  have hresult := hst.dataResult_length
  rw [headerSize,netFrameHeaderSize] at hheader
  rw [netFrameAllocSz] at hresult
  refine ⟨_,List.take_prefix (1 + st.calculator.calcHeader.nChunks.toNat * 2) _,?_⟩
  rw [List.length_take,List.length_drop,headerSize,netFrameHeaderSize]
  omega

/-- What `learn` does to a sound recorder. -/
theorem learn_sound (hst : st.Sound) (hlearning : st.lStruct.isLearning = true) :
    ∃ st',st.learn tick = some st' ∧ st'.Sound ∧ st'.calculator = st.calculator ∧
      (tick.toUInt16 ≠ 0 → st'.remaining ≤ st.remaining - 1) := by
  have htmp := hst.tmp_length
  have hticks := hst.nTicks_le
  have hresult := hst.dataResult_length
  by_cases hn : st.lStruct.nTicks = 0
  · refine ⟨_,learn_of_done hn htmp hresult,⟨hst.valid,hst.activated,htmp,hticks,?_,
      hst.nPointsMax,hst.points⟩,rfl,?_⟩
    · rw [Buffer.splice_length (by rw [toBytes_length,hresult,netFrameAllocSz]; omega)]
      exact hresult
    · intro _
      rw [remaining,remaining,if_pos hlearning,if_neg Bool.false_ne_true]
      split <;> omega
  · by_cases hold : st.lStruct.oldTick = 0
    · refine ⟨_,learn_of_not_started hn hold,⟨hst.valid,hst.activated,htmp,hticks,hresult,
        hst.nPointsMax,hst.points⟩,rfl,?_⟩
      intro htick
      simp only [remaining,if_pos hlearning,if_pos hold,if_neg htick]
      omega
    · refine ⟨_,learn_of_started hn hold (hticks.trans_eq htmp.symm),⟨hst.valid,hst.activated,
        ?_,?_,hresult,hst.nPointsMax,hst.points⟩,rfl,?_⟩
      · rw [Buffer.splice_length (by rw [List.length_singleton]; omega)]
        exact htmp
      · simp only
        omega
      · intro htick
        simp only [remaining,if_pos hlearning,if_neg hold,if_neg htick]
        omega

/-- What a frame does to a sound recorder. -/
theorem event_sound (hst : st.Sound) :
    ∃ st',st.event ID msg tick = some st' ∧ st'.Sound ∧ st'.calculator = st.calculator ∧
      (tick.toUInt16 ≠ 0 → st'.remaining ≤ st.remaining) ∧
      (tick.toUInt16 ≠ 0 → ID &&& 0x0f = canCallback →
        msg.id = st.calculator.calcHeader.rxAddr → st'.remaining ≤ st.remaining - 1) := by
  have hactivated := hst.activated
  by_cases hhears : st.Hears ID msg
  · by_cases hlearning : st.lStruct.isLearning = true
    · obtain ⟨st',hlearn,hsound,hcalculator,hremaining⟩ := learn_sound hst hlearning
      rw [event_of_learning hhears hlearning]
      refine ⟨st',hlearn,hsound,hcalculator,?_,fun htick _ _ => hremaining htick⟩
      intro htick
      have hless := hremaining htick
      omega
    · by_cases hempty : st.nPoints = 0
      · obtain ⟨known,hknown,hend⟩ := exists_known hst
        obtain ⟨stored,hevent,hlength,-⟩ :=
          @event_of_empty st ID msg tick hst hhears hlearning hempty known hknown hend
        have hfull (calculator : CANRecorderCalculator) :
            remaining ⟨calculator,st.activated,st.lStruct,stored,recordSize st.calculator,1,
              st.nPointsMax⟩ = 0 := by
          rw [remaining,if_neg hlearning,if_neg Nat.one_ne_zero]
        refine ⟨_,hevent,⟨hst.valid,hactivated,hst.tmp_length,hst.nTicks_le,hlength,
          hst.nPointsMax,Or.inr ⟨rfl,rfl⟩⟩,rfl,?_,?_⟩
        · intro _
          rw [hfull]
          exact Nat.zero_le _
        · intro _ _ _
          rw [hfull]
          exact Nat.zero_le _
      · refine ⟨st,event_of_full hlearning (by rw [hst.nPointsMax]; omega),hst,rfl,
          fun _ => le_refl _,?_⟩
        intro _ _ _
        rw [remaining,if_neg hlearning,if_neg hempty]
  · exact ⟨st,event_of_not_hears hhears,hst,rfl,fun _ => le_refl _,
      fun _ hcallback hid => absurd ⟨⟨hcallback,hactivated⟩,hid⟩ hhears⟩

theorem Sound.offset_lt (hst : st.Sound) : st.offset < netFrameAllocSz := by
  have hheader := headerSize_le hst.valid
  rcases hst.points with ⟨-,hoffset⟩ | ⟨-,hoffset⟩
  · rw [hoffset,netFrameAllocSz]
    omega
  · rw [hoffset]
    exact recordSize_lt hst.valid

theorem capture_of_not_ready (hready : ¬(st.lStruct.isLearning = false ∧ st.nPoints ≠ 0))
    (len : Nat) : st.capture len = some ([],st) := by
  rw [capture,if_neg hready]

/-- A buffer that is too small for the record loses it. -/
theorem capture_of_small (hready : st.lStruct.isLearning = false ∧ st.nPoints ≠ 0) {len : Nat}
    (hsmall : ¬len > st.offset) :
    st.capture len = some ([],{ st with nPoints := 0, offset := headerSize st.calculator }) := by
  rw [capture,if_pos hready]
  simp only [if_neg hsmall]

theorem capture_of_ready (hst : st.Sound)
    (hready : st.lStruct.isLearning = false ∧ st.nPoints ≠ 0) {len : Nat}
    (hlen : len > st.offset) :
    st.capture len =
      some ((Buffer.splice st.dataResult 6 (toBytes 2 st.offset)).take st.offset,{ st with
        nPoints := 0
        offset := headerSize st.calculator
        dataResult := Buffer.splice st.dataResult 6 (toBytes 2 st.offset) }) := by
  have hresult := hst.dataResult_length
  have hoffset := hst.offset_lt
  have hfits : 6 + (toBytes 2 st.offset).length ≤ st.dataResult.length := by
    rw [toBytes_length,hresult,netFrameAllocSz]
    omega
  have hstore := Buffer.store_of_le hfits
  have hlength := Buffer.splice_length hfits
  rw [Nat.cast_ofNat] at hstore
  rw [capture,if_pos hready]
  simp only [if_pos hlen,hstore,Option.bind_eq_bind,Option.bind_some]
  rw [Buffer.load_zero_of_le (by omega)]
  rfl

theorem capture_keeps (hst : st.Sound) (len : Nat) : ∃ data st',
    st.capture len = some (data,st') ∧ st'.Sound ∧ st'.calculator = st.calculator ∧
      st'.lStruct = st.lStruct := by
  have hempty {dataResult : List UInt8} (hlength : dataResult.length = netFrameAllocSz) :
      Sound { st with
        nPoints := 0
        offset := headerSize st.calculator
        dataResult := dataResult } :=
    ⟨hst.valid,hst.activated,hst.tmp_length,hst.nTicks_le,hlength,hst.nPointsMax,
      Or.inl ⟨rfl,rfl⟩⟩
  have hresult := hst.dataResult_length
  by_cases hready : st.lStruct.isLearning = false ∧ st.nPoints ≠ 0
  · by_cases hlen : len > st.offset
    · refine ⟨_,_,capture_of_ready hst hready hlen,hempty ?_,rfl,rfl⟩
      rw [Buffer.splice_length (by rw [toBytes_length,hresult,netFrameAllocSz]; omega)]
      exact hresult
    · exact ⟨_,_,capture_of_small hready hlen,hempty hresult,rfl,rfl⟩
  · exact ⟨[],st,capture_of_not_ready hready len,hst,rfl,rfl⟩

/-- A capture gives nothing or one whole record, which it gives when it is there. -/
theorem capture_sound (hst : st.Sound) :
    ∃ data st',st.capture netFrameAllocSz = some (data,st') ∧ st'.Sound ∧
      st'.calculator = st.calculator ∧ st'.lStruct = st.lStruct ∧
      (data = [] ∨ data.length = recordSize st.calculator) ∧
      (st.lStruct.isLearning = true → data = []) ∧
      (st.remaining = 0 → data.length = recordSize st.calculator) := by
  obtain ⟨data,st',hcapture,hsound,hcalculator,hlStruct⟩ := capture_keeps hst netFrameAllocSz
  refine ⟨data,st',hcapture,hsound,hcalculator,hlStruct,?_⟩
  by_cases hready : st.lStruct.isLearning = false ∧ st.nPoints ≠ 0
  · have hresult := hst.dataResult_length
    have hlt := hst.offset_lt
    have hoffset : st.offset = recordSize st.calculator := by
      rcases hst.points with ⟨hpoints,-⟩ | ⟨-,hoffset⟩
      · exact absurd hpoints hready.2
      · exact hoffset
    rw [capture_of_ready hst hready hlt,Option.some.injEq,Prod.mk.injEq] at hcapture
    have hlength : data.length = recordSize st.calculator := by
      rw [← hcapture.1,List.length_take,
        Buffer.splice_length (by rw [toBytes_length,hresult,netFrameAllocSz]; omega),hresult,
        Nat.min_eq_left (Nat.le_of_lt hlt),hoffset]
    refine ⟨Or.inr hlength,?_,fun _ => hlength⟩
    intro hlearning
    rw [hready.1] at hlearning
    cases hlearning
  · rw [capture_of_not_ready hready,Option.some.injEq,Prod.mk.injEq] at hcapture
    refine ⟨Or.inl hcapture.1.symm,fun _ => hcapture.1.symm,?_⟩
    intro hremaining
    rw [remaining] at hremaining
    by_cases hlearning : st.lStruct.isLearning = true
    · rw [if_pos hlearning] at hremaining
      omega
    · rw [if_neg hlearning] at hremaining
      have hpoints : st.nPoints ≠ 0 := by
        intro hnone
        rw [if_pos hnone] at hremaining
        cases hremaining
      exact absurd ⟨Bool.eq_false_of_not_eq_true hlearning,hpoints⟩ hready

end

end CANRecorder

end Pyrn.Can
