import Pyrn.Can.DiagCalculator
import Pyrn.Framework.RecursiveMutex

/-!
# Creating the dynamic sensors

`NewDynSensors` walks over the records that the server has sent. The value returned by
`SetData` moves the offset, and the loop ends when the offset has reached the data size.
-/

namespace Pyrn.Device

open Pyrn.Can

/-- A dynamic sensor with its calculators. -/
inductive Sensor
  | diag (calculators : List CANDiagCalculator)
  | recorder (calculator : CANRecorderCalculator)
  deriving DecidableEq, Repr

/-- The pins of the two buses of the CAN interface. -/
structure BusPins where
  canPinH1 : UInt8
  canPinL1 : UInt8
  canPinH2 : UInt8
  canPinL2 : UInt8
  deriving DecidableEq, Repr

def BusPins.busFromPins (pins : BusPins) (canH canL : UInt8) : Nat :=
  if canL = pins.canPinL1 ∧ canH = pins.canPinH1 then 1
  else if canL = pins.canPinL2 ∧ canH = pins.canPinH2 then 2
  else 0

/-- What the call finds: the memory around `data`, the size it is told, the pins, the room for
dynamic sensors, and in each round the memory of a new calculator and whether there is memory
for the sensor objects. An object for which there is no memory is built at address zero. -/
structure Env where
  memory : Int → UInt8
  dataSz : Int
  pins : BusPins
  maxSensors : Nat
  newDiag : Nat → Option CANDiagCalculator
  newRecorder : Nat → Option CANRecorderCalculator
  newSensor : Nat → Bool

inductive OsStatus
  | osOK
  | osEventTimeout
  | osError
  deriving DecidableEq, Repr

structure LoopState where
  offset : Int
  round : Nat
  sensors : List Sensor
  deriving DecidableEq, Repr

/-- How a round ends: with another one, by leaving the loop, or in a memory fault. -/
inductive Next
  | again (st : LoopState)
  | done (sensors : List Sensor)
  | fault
  deriving DecidableEq, Repr

/-- How a call ends. -/
inductive Ending
  | returned (sensors : List Sensor)
  | fault
  | outOfFuel
  deriving DecidableEq, Repr

/-- One round: the offset of its record, the bytes read from there on, the calculator of the
recorder that it adds to the sensors, and how it ends. -/
structure Round where
  offset : Int
  read : Nat
  recorder : Option CANRecorderCalculator
  next : Next
  deriving DecidableEq, Repr

/-- The memory from an offset into the data on. -/
def Env.at (env : Env) (offset : Int) : Memory := fun i => env.memory (offset + i)

/-- The check for the end of the data. -/
def endCheck (env : Env) (st : LoopState) (offset : Int) (sensors : List Sensor) : Next :=
  if offset ≥ env.dataSz then .done sensors else .again ⟨offset,st.round + 1,sensors⟩

/-- `AddCalculator` on the first diagnosis sensor with less than two calculators. Every sensor
is taken for a diagnosis sensor; a call through the table of a recorder is a fault. -/
def addToExisting (calculator : CANDiagCalculator) : List Sensor → Option (List Sensor)
  | [] => some []
  | .recorder _ :: _ => none
  | .diag calculators :: rest =>
      if calculators.length < 2 then some (.diag (calculators ++ [calculator]) :: rest)
      else (addToExisting calculator rest).map fun sensors => .diag calculators :: sensors

/-- A ready diagnosis calculator: its sensor is created, or it joins an existing one. -/
def placeDiag (env : Env) (st : LoopState) (offset : Int) (calculator : CANDiagCalculator) :
    Next :=
  let header := calculator.calcHeader
  if header.diagCode = 0x6A ∨ header.diagCode = 0x68 then
    if env.pins.busFromPins header.pinh header.pinl ≠ 0 then
      if st.sensors.length < env.maxSensors then
        if env.newSensor st.round = true then
          endCheck env st offset (st.sensors ++ [.diag [calculator]])
        else .fault
      else match addToExisting calculator st.sensors with
        | none => .fault
        | some sensors => endCheck env st offset sensors
    else .done st.sensors
  else endCheck env st offset st.sensors

def diagRound (env : Env) (st : LoopState) : Round :=
  match env.newDiag st.round with
  | none => ⟨st.offset,1,none,.fault⟩
  | some fresh =>
      match fresh.setData (env.at st.offset) with
      | none => ⟨st.offset,(fresh.parse (env.at st.offset)).read,none,.fault⟩
      | some result => ⟨st.offset,result.read,none,
          if result.value ≠ 0 then
            if result.object.ready = true then
              placeDiag env st (st.offset + result.value) result.object
            else .done st.sensors
          else .done st.sensors⟩

/-- A recorder is built on the calculator whether it is ready or not; `AddSensor` refuses it
when there is no room. -/
def recorderRound (env : Env) (st : LoopState) : Round :=
  match env.newRecorder st.round with
  | none => ⟨st.offset,1,none,.fault⟩
  | some fresh =>
      let result := fresh.setData (env.at st.offset)
      if result.value ≠ 0 then
        if env.newSensor st.round = true then
          if st.sensors.length + 1 ≤ env.maxSensors then
            ⟨st.offset,result.read,some result.object,endCheck env st (st.offset + result.value)
              (st.sensors ++ [.recorder result.object])⟩
          else ⟨st.offset,result.read,none,endCheck env st (st.offset + result.value) st.sensors⟩
        else ⟨st.offset,result.read,none,.fault⟩
      else ⟨st.offset,result.read,none,.done st.sensors⟩

def round (env : Env) (st : LoopState) : Round :=
  if env.at st.offset 0 = canDiagHdrType then diagRound env st
  else if env.at st.offset 0 = canRecorderHdrType then recorderRound env st
  else ⟨st.offset,1,none,endCheck env st st.offset st.sensors⟩

def rounds (env : Env) : Nat → LoopState → List Round × Ending
  | 0, _ => ([],.outOfFuel)
  | fuel + 1, st =>
      let this := round env st
      match this.next with
      | .again next =>
          let rest := rounds env fuel next
          (this :: rest.1,rest.2)
      | .done sensors => ([this],.returned sensors)
      | .fault => ([this],.fault)

/-- `NewDynSensors` with the result of `dynSensorAccess.lock`. -/
def newDynSensors (env : Env) (lock : OsStatus) (sensors : List Sensor) (fuel : Nat) :
    List Round × Ending :=
  match lock with
  | .osOK => rounds env fuel ⟨0,0,sensors⟩
  | _ => ([],.returned sensors)

/-- `NewDynSensors` with `dynSensorAccess`, which it never unlocks. -/
def newDynSensorsLocked (env : Env) (lock : OsStatus) (sensors : List Sensor) (fuel : Nat)
    (dynSensorAccess : RecursiveMutex) : Ending × RecursiveMutex :=
  ((newDynSensors env lock sensors fuel).2,match lock with
    | .osOK => dynSensorAccess.acquire
    | _ => dynSensorAccess)

end Pyrn.Device
