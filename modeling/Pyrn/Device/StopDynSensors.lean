import Pyrn.Device.NewDynSensors

/-!
# Stopping the dynamic sensors

`StopDynSensors` pops one sensor after the other, stops it and releases its objects. The check
that ends the loop looks at the status of the lock, which is zero whenever the loop runs.
-/

namespace Pyrn.Device

/-- A dynamic sensor by the addresses of its objects. -/
inductive DynSensor
  | canDiag (sensor : Nat) (calculators : List Nat) (communicator : Nat)
  | canRec (sensor calculator : Nat)
  deriving DecidableEq, Repr

/-- What the call does with an object. -/
inductive Action
  | stop (sensor : Nat)
  | waitEnd (sensor : Nat)
  | deActivate (sensor : Nat)
  | delete (object : Nat)
  deriving DecidableEq, Repr

def DynSensor.address : DynSensor → Nat
  | canDiag sensor _ _ => sensor
  | canRec sensor _ => sensor

/-- The objects that have to be released with a sensor. -/
def DynSensor.objects : DynSensor → List Nat
  | canDiag sensor calculators communicator => calculators ++ [sensor,communicator]
  | canRec sensor calculator => [sensor,calculator]

/-- The body of the loop for a popped sensor. -/
def DynSensor.release : DynSensor → List Action
  | canDiag sensor calculators communicator =>
      [.stop sensor,.waitEnd sensor] ++ calculators.map Action.delete ++
        [.delete sensor,.delete communicator]
  | canRec sensor calculator => [.deActivate sensor,.delete sensor,.delete calculator]

def Action.deleted : Action → Option Nat
  | delete object => some object
  | _ => none

def Action.stopped : Action → Option Nat
  | stop sensor => some sensor
  | deActivate sensor => some sensor
  | _ => none

/-- The loop over the sensors in the order in which `PopLastSensor` gives them, with those left
in the list. The test `s != NULL` is one of the lock status, and `osOK` is zero. `none` is a
call through the `NULL` that an empty list gives. -/
def stopLoop (s : OsStatus) : List DynSensor → Option (List Action × List DynSensor)
  | [] => if s ≠ .osOK then none else some ([],[])
  | sb :: rest =>
      if s ≠ .osOK then do
        let (actions,left) ← stopLoop s rest
        return (sb.release ++ actions,left)
      else some ([],rest)

/-- The end of a call: the value if there is one, what it has done, the sensors that are still
in the list, and how often it has acquired and released `dynSensorAccess`. -/
structure Stopping where
  value : Option Bool
  actions : List Action
  sensors : List DynSensor
  acquired : Nat
  released : Nat
  deriving DecidableEq, Repr

/-- `StopDynSensors` with the result of `dynSensorAccess.lock`. -/
def stopDynSensors (lock : OsStatus) (sensors : List DynSensor) : Option Stopping :=
  match lock with
  | .osOK => do
      let (actions,left) ← stopLoop lock sensors.reverse
      return ⟨some true,actions,left.reverse,1,1⟩
  | .osEventTimeout => some ⟨some false,[],sensors,0,0⟩
  | .osError => some ⟨none,[],sensors,0,0⟩

/-- When the call returns true, every sensor has been stopped and released with its objects. -/
structure StopsAll (sensors : List DynSensor) (ended : Stopping) : Prop where
  emptied : ended.value = some true → ended.sensors = []
  stopped : ended.value = some true →
    (ended.actions.filterMap Action.stopped).Perm (sensors.map DynSensor.address)
  deleted : ended.value = some true →
    (ended.actions.filterMap Action.deleted).Perm (sensors.flatMap DynSensor.objects)
  unlocked : ended.value = some true → ended.released = ended.acquired

theorem stopLoop_osOK (sensors : List DynSensor) :
    stopLoop .osOK sensors = some ([],sensors.tail) := by
  cases sensors with
  | nil => rfl
  | cons sb rest => rfl

/-- A call that obtains the lock drops the last sensor and does nothing else. -/
theorem stopDynSensors_osOK (sensors : List DynSensor) :
    stopDynSensors .osOK sensors = some ⟨some true,[],sensors.dropLast,1,1⟩ := by
  have htail : sensors.reverse.tail.reverse = sensors.dropLast := by
    rw [List.tail_reverse,List.reverse_reverse]
  rw [stopDynSensors]
  simp only
  rw [stopLoop_osOK,← htail]
  rfl

end Pyrn.Device
