import Pyrn.Framework.LittleEndian

/-!
# The recorder calculator

`CANRecorderCalculator` copies a packed header and a list of byte ranges out of the memory it
is given, and accepts them when every range lies in the eight bytes of a CAN frame.
-/

namespace Pyrn.Can

open LittleEndian

/-- Memory from a pointer on. -/
abbrev Memory := Nat → UInt8

/-- `count` bytes of a memory. -/
def Memory.bytes (buff : Memory) (offset count : Nat) : List UInt8 :=
  (List.range count).map fun i => buff (offset + i)

/-- A little-endian field of a packed structure. -/
def Memory.field (buff : Memory) (offset width : Nat) : Nat := ofBytes (buff.bytes offset width)

@[simp] theorem Memory.bytes_length (buff : Memory) (offset count : Nat) :
    (buff.bytes offset count).length = count := by
  rw [Memory.bytes,List.length_map,List.length_range]

theorem bytes_add (buff : Memory) (offset a b : Nat) :
    buff.bytes offset (a + b) = buff.bytes offset a ++ buff.bytes (offset + a) b := by
  simp only [Memory.bytes,List.range_add,List.map_append,List.map_map]
  congr 2
  funext i
  simp only [Function.comp_apply,Nat.add_assoc]

/-- Bytes of a memory that are known as a concatenation. -/
theorem bytes_append {buff : Memory} {offset : Nat} {xs ys : List UInt8}
    (h : buff.bytes offset (xs ++ ys).length = xs ++ ys) :
    buff.bytes offset xs.length = xs ∧ buff.bytes (offset + xs.length) ys.length = ys := by
  rw [List.length_append,bytes_add] at h
  exact List.append_inj h (Memory.bytes_length _ _ _)

theorem bytes_two_mul_succ (buff : Memory) (offset n : Nat) :
    buff.bytes offset (2 * (n + 1)) =
      buff offset :: buff (offset + 1) :: buff.bytes (offset + 2) (2 * n) := by
  have hsplit : 2 * (n + 1) = 2 + 2 * n := by omega
  rw [hsplit,bytes_add]
  rfl

structure CANRecorderCalculatorHeader where
  hdrType : UInt8
  idCalc : UInt32
  speed : UInt16
  rxAddr : UInt32
  pinh : UInt8
  pinl : UInt8
  nChunks : UInt8
  deriving DecidableEq, Repr

structure CANRecorderData where
  start : UInt8
  len : UInt8
  deriving DecidableEq, Repr

def CANRecorderData.pair (entry : CANRecorderData) : Nat × Nat :=
  (entry.start.toNat,entry.len.toNat)

def canRecorderHdrType : UInt8 := 2

def canRecorderEntryStorage : Nat := 8

/-- `sizeof(CANRecorderCalculatorHeader)` and `sizeof(CANRecorderData)`, packed structures. -/
def sizeofCANRecorderCalculatorHeader : Nat := 14

def sizeofCANRecorderData : Nat := 2

def CANRecorderCalculatorHeader.read (buff : Memory) : CANRecorderCalculatorHeader where
  hdrType := buff 0
  idCalc := UInt32.ofNat (buff.field 1 4)
  speed := UInt16.ofNat (buff.field 5 2)
  rxAddr := UInt32.ofNat (buff.field 7 4)
  pinh := buff 11
  pinl := buff 12
  nChunks := buff 13

structure CANRecorderCalculator where
  dataPresence : Bool
  dataValidity : Bool
  calcHeader : CANRecorderCalculatorHeader
  recordEntries : List CANRecorderData
  deriving DecidableEq, Repr

/-- The result of `SetData`: its value, the object, and how many bytes of the memory it reads. -/
structure SetDataResult (α : Type) where
  value : Int
  object : α
  read : Nat

namespace CANRecorderCalculator

def entriesOf (buff : Memory) (nChunks : UInt8) : List CANRecorderData :=
  (List.range nChunks.toNat).map fun i =>
    ⟨buff (sizeofCANRecorderCalculatorHeader + 2 * i),
      buff (sizeofCANRecorderCalculatorHeader + 2 * i + 1)⟩

def parse (old : CANRecorderCalculator) (buff : Memory) : SetDataResult CANRecorderCalculator :=
  let cleared := { old with dataPresence := false, dataValidity := false }
  if buff 0 = canRecorderHdrType then
    let calcHeader := CANRecorderCalculatorHeader.read buff
    let n := calcHeader.nChunks.toNat
    if 0 < n then
      if n < canRecorderEntryStorage then
        let size := sizeofCANRecorderCalculatorHeader + n * sizeofCANRecorderData
        ⟨size,⟨true,false,calcHeader,entriesOf buff calcHeader.nChunks⟩,size⟩
      else ⟨-1,{ cleared with calcHeader := calcHeader },sizeofCANRecorderCalculatorHeader⟩
    else ⟨-1,{ cleared with calcHeader := calcHeader },sizeofCANRecorderCalculatorHeader⟩
  else ⟨-1,cleared,1⟩

/-- The loop of `Validate`. -/
def validEntries : List CANRecorderData → Bool
  | [] => true
  | entry :: rest =>
      if entry.start.toNat > 7 then false
      else if entry.start.toNat + entry.len.toNat > 8 then false
      else validEntries rest

def validate (st : CANRecorderCalculator) : CANRecorderCalculator :=
  { st with dataValidity := st.dataPresence && validEntries st.recordEntries }

def setData (old : CANRecorderCalculator) (buff : Memory) : SetDataResult CANRecorderCalculator :=
  let parsed := old.parse buff
  { parsed with object := parsed.object.validate }

def ready (st : CANRecorderCalculator) : Bool := st.dataValidity

end CANRecorderCalculator

/-- A range of bytes inside a CAN frame. -/
def CANRecorderData.InFrame (entry : CANRecorderData) : Prop :=
  entry.start.toNat ≤ 7 ∧ entry.start.toNat + entry.len.toNat ≤ 8

theorem validEntries_iff (entries : List CANRecorderData) :
    CANRecorderCalculator.validEntries entries = true ↔ ∀ entry ∈ entries, entry.InFrame := by
  induction entries with
  | nil => simp [CANRecorderCalculator.validEntries]
  | cons entry rest ih =>
    rw [CANRecorderCalculator.validEntries,List.forall_mem_cons,← ih,CANRecorderData.InFrame]
    by_cases hstart : entry.start.toNat > 7
    · rw [if_pos hstart]
      exact iff_of_false (by decide) fun h => by omega
    · by_cases hend : entry.start.toNat + entry.len.toNat > 8
      · rw [if_neg hstart,if_pos hend]
        exact iff_of_false (by decide) fun h => by omega
      · rw [if_neg hstart,if_neg hend]
        exact ⟨fun h => ⟨by omega,h⟩,fun h => h.2⟩

/-- Between one and seven chunks: what `Parse` takes. -/
def Parsable (buff : Memory) : Prop := 1 ≤ (buff 13).toNat ∧ (buff 13).toNat ≤ 7

/-- The size of the record whose header lies at the beginning of the memory. -/
def recorderSize (buff : Memory) : Nat := 14 + 2 * (buff 13).toNat

theorem setData_of_parsable (old : CANRecorderCalculator) {buff : Memory}
    (htype : buff 0 = canRecorderHdrType) (hparse : Parsable buff) :
    old.setData buff = ⟨recorderSize buff,⟨true,CANRecorderCalculator.validEntries
      (CANRecorderCalculator.entriesOf buff (buff 13)),.read buff,
      CANRecorderCalculator.entriesOf buff (buff 13)⟩,recorderSize buff⟩ := by
  have hsize : sizeofCANRecorderCalculatorHeader + (buff 13).toNat * sizeofCANRecorderData =
      recorderSize buff := by
    simp only [sizeofCANRecorderCalculatorHeader,sizeofCANRecorderData,recorderSize]
    omega
  have hpos : 0 < (CANRecorderCalculatorHeader.read buff).nChunks.toNat := hparse.1
  have hlt : (CANRecorderCalculatorHeader.read buff).nChunks.toNat < canRecorderEntryStorage :=
    Nat.lt_succ_of_le hparse.2
  have hparsed : old.parse buff = ⟨recorderSize buff,⟨true,false,.read buff,
      CANRecorderCalculator.entriesOf buff (buff 13)⟩,recorderSize buff⟩ := by
    rw [CANRecorderCalculator.parse,if_pos htype]
    simp only
    rw [if_pos hpos,if_pos hlt,← hsize]
    rfl
  rw [CANRecorderCalculator.setData,hparsed]
  rfl

theorem setData_of_not_parsable (old : CANRecorderCalculator) {buff : Memory}
    (htype : buff 0 = canRecorderHdrType) (hparse : ¬Parsable buff) :
    ∃ object, old.setData buff = ⟨-1,object,14⟩ ∧ object.ready = false := by
  rw [CANRecorderCalculator.setData,CANRecorderCalculator.parse,if_pos htype]
  simp only
  by_cases hpos : 0 < (CANRecorderCalculatorHeader.read buff).nChunks.toNat
  · have hmany : ¬(CANRecorderCalculatorHeader.read buff).nChunks.toNat <
        canRecorderEntryStorage := fun hlt => hparse ⟨hpos,Nat.le_of_lt_succ hlt⟩
    rw [if_pos hpos,if_neg hmany]
    exact ⟨_,rfl,rfl⟩
  · rw [if_neg hpos]
    exact ⟨_,rfl,rfl⟩

theorem entriesOf_eq {buff : Memory} {nChunks : UInt8} {chunks : List CANRecorderData}
    (hcount : nChunks.toNat = chunks.length)
    (hbytes : buff.bytes 14 (2 * chunks.length) =
      chunks.flatMap fun chunk => [chunk.start,chunk.len]) :
    CANRecorderCalculator.entriesOf buff nChunks = chunks := by
  have hwalk (offset : Nat) (rest : List CANRecorderData)
      (h : buff.bytes offset (2 * rest.length) =
        rest.flatMap fun chunk => [chunk.start,chunk.len]) :
      ((List.range rest.length).map fun i =>
        (⟨buff (offset + 2 * i),buff (offset + 2 * i + 1)⟩ : CANRecorderData)) = rest := by
    induction rest generalizing offset with
    | nil => rfl
    | cons chunk rest ih =>
      rw [List.length_cons,bytes_two_mul_succ,List.flatMap_cons] at h
      simp only [List.cons_append,List.nil_append,List.cons.injEq] at h
      obtain ⟨hstart,hlen,hrest⟩ := h
      have hmap := ih (offset + 2) hrest
      rw [List.length_cons,List.range_succ_eq_map,List.map_cons,List.map_map]
      congr 1
      · rw [Nat.mul_zero,Nat.add_zero,hstart,hlen]
      · rw [← hmap,List.length_map,List.length_range]
        apply List.map_congr_left
        intro i _
        have hoffset : offset + 2 * (i + 1) = offset + 2 + 2 * i := by omega
        simp only [Function.comp_apply,Nat.succ_eq_add_one]
        rw [hoffset]
  rw [CANRecorderCalculator.entriesOf,hcount]
  exact hwalk 14 chunks hbytes

end Pyrn.Can
