import Pyrn.Can.RecorderCalculator
import Pyrn.Framework.Buffer

/-!
# The diagnosis calculator

`CANDiagCalculator` copies a packed header and a command list into its storage. Its walks over
the commands follow the sizes they find, past the storage if no end marker stops them.
-/

namespace Pyrn.Can

open LittleEndian

def canDiagHdrType : UInt8 := 1

def canDiagCmdStorage : Nat := 256

/-- `sizeof(CANDiagCalculatorHeader)`, a packed structure. -/
def sizeofCANDiagCalculatorHeader : Nat := 20

inductive CommandType
  | cmdEnd
  | cmdAck
  | cmdKeepAlive
  | cmdNorm
  | cmdDiagStart
  deriving DecidableEq, Repr

def CommandType.code : CommandType → Nat
  | cmdEnd => 0
  | cmdAck => 1
  | cmdKeepAlive => 2
  | cmdNorm => 3
  | cmdDiagStart => 4

structure CANDiagCalculatorHeader where
  hdrType : UInt8
  idCalc : UInt32
  diagCode : UInt8
  speed : UInt16
  addrDst : UInt32
  addrSrc : UInt32
  pinh : UInt8
  pinl : UInt8
  cmdLen : UInt16
  deriving DecidableEq, Repr

def CANDiagCalculatorHeader.read (buff : Memory) : CANDiagCalculatorHeader where
  hdrType := buff 0
  idCalc := UInt32.ofNat (buff.field 1 4)
  diagCode := buff 5
  speed := UInt16.ofNat (buff.field 6 2)
  addrDst := UInt32.ofNat (buff.field 8 4)
  addrSrc := UInt32.ofNat (buff.field 12 4)
  pinh := buff 16
  pinl := buff 17
  cmdLen := UInt16.ofNat (buff.field 18 2)

/-- A command as its header and the memory behind it show it. -/
structure CANDiagCommand where
  type : Nat
  idCmd : Nat
  size : Nat
  cmd : List UInt8
  deriving DecidableEq, Repr

/-- `memory` is what lies at `cmd`: the command storage and everything behind it. -/
structure CANDiagCalculator where
  dataPresence : Bool
  dataValidity : Bool
  calcHeader : CANDiagCalculatorHeader
  memory : List UInt8
  deriving DecidableEq, Repr

namespace CANDiagCalculator

def parse (old : CANDiagCalculator) (buff : Memory) : SetDataResult CANDiagCalculator :=
  let cleared := { old with dataPresence := false, dataValidity := false }
  if buff 0 = canDiagHdrType then
    let calcHeader := CANDiagCalculatorHeader.read buff
    let n := calcHeader.cmdLen.toNat
    if 0 < n then
      if n < canDiagCmdStorage then
        let memory := Buffer.splice old.memory 0 (buff.bytes sizeofCANDiagCalculatorHeader n)
        let size := n + sizeofCANDiagCalculatorHeader
        ⟨size,⟨true,false,calcHeader,memory⟩,size⟩
      else ⟨-1,{ cleared with calcHeader := calcHeader },sizeofCANDiagCalculatorHeader⟩
    else ⟨-1,{ cleared with calcHeader := calcHeader },sizeofCANDiagCalculatorHeader⟩
  else ⟨-1,cleared,1⟩

/-- The command at the beginning of a memory; `none` is a read past its end. -/
def commandAt : List UInt8 → Option CANDiagCommand
  | t₀ :: t₁ :: i₀ :: i₁ :: i₂ :: i₃ :: size :: rest =>
      some ⟨ofBytes [t₀,t₁],ofBytes [i₀,i₁,i₂,i₃],size.toNat,rest⟩
  | _ => none

/-- The loop of `Validate` from a command on. Every round leaves seven bytes or more behind, so
the length of the memory bounds the rounds. -/
def validateFrom : Nat → List UInt8 → Option Bool
  | 0, _ => none
  | rounds + 1, memory => do
      let command ← commandAt memory
      if command.type = CommandType.cmdEnd.code then return true
      else if command.size > 8 then return false
      else validateFrom rounds (command.cmd.drop command.size)

def validate (st : CANDiagCalculator) : Option CANDiagCalculator :=
  if st.dataPresence = true then do
    let valid ← validateFrom st.memory.length st.memory
    return { st with dataValidity := valid }
  else some st

/-- `none` is a read past the end of the memory. -/
def setData (old : CANDiagCalculator) (buff : Memory) :
    Option (SetDataResult CANDiagCalculator) := do
  let parsed := old.parse buff
  let object ← parsed.object.validate
  return { parsed with object := object }

def ready (st : CANDiagCalculator) : Bool := st.dataPresence && st.dataValidity

/-- The loop of `NextCommand` from a command on; the command found, or `NULL`. -/
def nextFrom (type : Nat) : Nat → List UInt8 → Option (Option CANDiagCommand)
  | 0, _ => none
  | rounds + 1, memory => do
      let command ← commandAt memory
      if command.type = type then return some command
      else if command.type = CommandType.cmdEnd.code then return none
      else nextFrom type rounds (command.cmd.drop command.size)

def nextCommand (pCmd : CANDiagCommand) (type : Nat) : Option (Option CANDiagCommand) :=
  nextFrom type pCmd.cmd.length (pCmd.cmd.drop pCmd.size)

/-- `FirstCommand` looks at the first command before it goes on as `NextCommand` does, even
past an end marker. -/
def firstCommand (st : CANDiagCalculator) (type : Nat) : Option (Option CANDiagCommand) := do
  let first ← commandAt st.memory
  if first.type = type then return some first
  nextCommand first type

end CANDiagCalculator

/-- The length of the command list in a record. -/
def cmdLenOf (buff : Memory) : Nat := (CANDiagCalculatorHeader.read buff).cmdLen.toNat

/-- What `Parse` takes: some commands, and room for them in the storage. -/
def CmdLenOk (buff : Memory) : Prop := 0 < cmdLenOf buff ∧ cmdLenOf buff < canDiagCmdStorage

def diagSize (buff : Memory) : Nat := cmdLenOf buff + sizeofCANDiagCalculatorHeader

/-- The memory of a calculator behind the commands of a record. -/
def storedCommands (fresh : CANDiagCalculator) (buff : Memory) : List UInt8 :=
  Buffer.splice fresh.memory 0 (buff.bytes sizeofCANDiagCalculatorHeader (cmdLenOf buff))

/-- Does the walk over the stored commands reach the end marker before a command that is too
large? `none` when it leaves the memory. -/
def commandsValid (fresh : CANDiagCalculator) (buff : Memory) : Option Bool :=
  CANDiagCalculator.validateFrom (storedCommands fresh buff).length (storedCommands fresh buff)

theorem parse_of_cmdLenOk (fresh : CANDiagCalculator) {buff : Memory}
    (htype : buff 0 = canDiagHdrType) (hlen : CmdLenOk buff) :
    fresh.parse buff = ⟨diagSize buff,⟨true,false,.read buff,storedCommands fresh buff⟩,
      diagSize buff⟩ := by
  have hpos : 0 < (CANDiagCalculatorHeader.read buff).cmdLen.toNat := hlen.1
  have hlt : (CANDiagCalculatorHeader.read buff).cmdLen.toNat < canDiagCmdStorage := hlen.2
  rw [CANDiagCalculator.parse,if_pos htype]
  simp only
  rw [if_pos hpos,if_pos hlt]
  rfl

theorem diag_setData_of_cmdLenOk (fresh : CANDiagCalculator) {buff : Memory}
    (htype : buff 0 = canDiagHdrType) (hlen : CmdLenOk buff) :
    fresh.setData buff = (commandsValid fresh buff).map fun valid =>
      ⟨diagSize buff,⟨true,valid,.read buff,storedCommands fresh buff⟩,diagSize buff⟩ := by
  rw [CANDiagCalculator.setData,parse_of_cmdLenOk fresh htype hlen]
  simp only [CANDiagCalculator.validate]
  rw [← commandsValid]
  cases commandsValid fresh buff <;> rfl

theorem diag_setData_of_not_cmdLenOk (fresh : CANDiagCalculator) {buff : Memory}
    (htype : buff 0 = canDiagHdrType) (hlen : ¬CmdLenOk buff) :
    ∃ object, fresh.setData buff = some ⟨-1,object,sizeofCANDiagCalculatorHeader⟩ ∧
      object.ready = false := by
  rw [CANDiagCalculator.setData,CANDiagCalculator.parse,if_pos htype]
  simp only
  by_cases hpos : 0 < (CANDiagCalculatorHeader.read buff).cmdLen.toNat
  · have hmany : ¬(CANDiagCalculatorHeader.read buff).cmdLen.toNat < canDiagCmdStorage :=
      fun hlt => hlen ⟨hpos,hlt⟩
    rw [if_pos hpos,if_neg hmany]
    exact ⟨_,rfl,rfl⟩
  · rw [if_neg hpos]
    exact ⟨_,rfl,rfl⟩

end Pyrn.Can
