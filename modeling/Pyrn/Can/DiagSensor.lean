import Pyrn.Can.Communicator6A

/-!
# The traffic of a diagnosis sensor

A diagnosis sensor takes the commands from its calculators, one calculator after the other. The
addresses and the acknowledge command come from the calculator of its communicator.
-/

namespace Pyrn.Can

/-- `CANDiagSensor6A` with its `CANCommunicator6A`, or `CANDiagSensor68` with its
`CANCommunicator68`. -/
inductive DiagKind
  | diag6A
  | diag68
  deriving DecidableEq, Repr

/-- The communicator is built with a bus number that is not zero. -/
structure CANCommunicatorMaster where
  bus : UInt8
  calculator : CANDiagCalculator
  bus_ne_zero : bus ≠ 0

structure CANDiagSensor where
  kind : DiagKind
  comHandler : CANCommunicatorMaster
  calculators : List CANDiagCalculator

/-- What `NewDynSensors` builds for a calculator: its communicator and its sensor. -/
def CANDiagSensor.new (kind : DiagKind) (bus : UInt8) (hbus : bus ≠ 0)
    (calculator : CANDiagCalculator) : CANDiagSensor where
  kind := kind
  comHandler := ⟨bus,calculator,hbus⟩
  calculators := [calculator]

/-- `AddCalculator`, which replaces the calculator at `i` or goes behind the last one. -/
def CANDiagSensor.addCalculator (sensor : CANDiagSensor) (calculator : CANDiagCalculator)
    (i : Nat) : CANDiagSensor :=
  { sensor with
    calculators := if i < sensor.calculators.length then sensor.calculators.set i calculator
      else sensor.calculators ++ [calculator] }

/-- The sensors that `NewDynSensors` builds. -/
inductive Built : CANDiagSensor → Prop
  | one (kind : DiagKind) (bus : UInt8) (hbus : bus ≠ 0) (calculator : CANDiagCalculator) :
      Built (.new kind bus hbus calculator)
  | two (kind : DiagKind) (bus : UInt8) (hbus : bus ≠ 0) (calculator added : CANDiagCalculator) :
      Built ((CANDiagSensor.new kind bus hbus calculator).addCalculator added 1)

/-- What a communicator does on the CAN interface. `send` is a call of `CANInterface::Send`
with the bytes at its pointer, and `acknowledge` is what the search for the acknowledge command
of a first frame has given. -/
inductive Traffic
  | listen (id : UInt32)
  | send (id : UInt32) (data : List UInt8)
  | acknowledge (command : Option CANMessage)
  | unlisten (id : UInt32)
  deriving DecidableEq, Repr

/-- The traffic of a piece of code, and whether it goes on behind it: it may also wait for
events that do not come, or fault. -/
structure Session where
  traffic : List Traffic
  goesOn : Bool
  deriving DecidableEq, Repr

def Session.andThen (first next : Session) : Session :=
  if first.goesOn then ⟨first.traffic ++ next.traffic,next.goesOn⟩ else first

def Session.quiet (goesOn : Bool) : Session := ⟨[],goesOn⟩

/-- A message that begins an extended reply. -/
def startsSegmented (st : Execution) : OsEvent → Bool
  | .message msg => st.state = .idle ∧ msg.byte 0 &&& 0xF0 ≠ 0x00 ∧ msg.byte 0 = 0x10
  | _ => false

/-- The search for the acknowledge command, when the event asks for one. -/
def acknowledgement (calculator : CANDiagCalculator) (st : Execution) (evt : OsEvent) :
    List Traffic :=
  if startsSegmented st evt then
    (CANCommunicator6A.ackMessage calculator).toList.map Traffic.acknowledge
  else []

/-- The loop of `CANCommunicator6A::ExecuteCommand`. -/
def waitTraffic (calculator : CANDiagCalculator) : Execution → List OsEvent → Session
  | _, [] => .quiet false
  | st, evt :: evts =>
      match CANCommunicator6A.onEvent calculator st evt with
      | none => ⟨acknowledgement calculator st evt,false⟩
      | some (.waiting next,_) =>
          Session.andThen ⟨acknowledgement calculator st evt,true⟩
            (waitTraffic calculator next evts)
      | some (.returned _,_) => ⟨acknowledgement calculator st evt,true⟩

/-- The one event that `CANCommunicator68::ExecuteCommand` waits for: a message is copied by its
own length into the response. -/
def wait68 (responseSz : Nat) : List OsEvent → Session
  | [] => .quiet false
  | .message msg :: _ =>
      .quiet (1 + (msg.byte 0).toNat ≤ msg.data.length ∧ (msg.byte 0).toNat ≤ responseSz)
  | _ :: _ => .quiet true

/-- `ExecuteCommand` for some data, with a response buffer of `responseSz` bytes and the events
that it sees. The 68 communicator sends its container of eight bytes. -/
def executeCommand (kind : DiagKind) (com : CANCommunicatorMaster) (data : List UInt8)
    (responseSz : Nat) (evts : List OsEvent) : Session :=
  let header := com.calculator.calcHeader
  if com.bus ≠ 0 then
    let sent : List UInt8 := match kind with
      | .diag6A => data
      | .diag68 => (data ++ List.replicate 8 0).take 8
    let waited := match kind with
      | .diag6A => waitTraffic com.calculator
          (CANCommunicator6A.start (List.replicate responseSz 0)) evts
      | .diag68 => wait68 responseSz evts
    (Session.mk [.listen header.addrDst,.send header.addrSrc sent] true).andThen
      (waited.andThen ⟨[.unlisten header.addrDst],true⟩)
  else .quiet true

/-- `DiagStart`. -/
def diagStart (sensor : CANDiagSensor) (calculator : CANDiagCalculator) (evts : List OsEvent) :
    Session :=
  match calculator.firstCommand CommandType.cmdDiagStart.code with
  | none => .quiet false
  | some none => .quiet true
  | some (some hdrCmd) =>
      executeCommand sensor.kind sensor.comHandler (hdrCmd.cmd.take hdrCmd.size) 32 evts

/-- `KeepAliveStart`, which reads the period of the timer from the keep-alive command without
asking whether there is one. -/
def keepAliveStart (sensor : CANDiagSensor) (calculator : CANDiagCalculator) : Session :=
  match sensor.kind,calculator.firstCommand CommandType.cmdKeepAlive.code with
  | .diag68,_ => .quiet true
  | .diag6A,some (some _) => .quiet true
  | .diag6A,_ => .quiet false

/-- `KeepAliveSequence`; the length is a `uint8_t`. -/
def keepAliveSequence (sensor : CANDiagSensor) (calculator : CANDiagCalculator)
    (evts : List OsEvent) : Session :=
  match sensor.kind,calculator.firstCommand CommandType.cmdKeepAlive.code with
  | .diag68,_ => .quiet true
  | .diag6A,none => .quiet false
  | .diag6A,some none => .quiet true
  | .diag6A,some (some hdrCmd) => executeCommand .diag6A sensor.comHandler
      (hdrCmd.cmd.take ((hdrCmd.size + 254) % 256)) 32 evts

/-- The ticks of the keep-alive timer, each with the events that it sees. -/
def keepAliveTicks (sensor : CANDiagSensor) (calculator : CANDiagCalculator) :
    List (List OsEvent) → Session
  | [] => .quiet true
  | evts :: rest =>
      (keepAliveSequence sensor calculator evts).andThen (keepAliveTicks sensor calculator rest)

/-- A round of `DiagSequence`: the events that its command sees, and the ticks that come before
the next command. -/
structure DiagRound where
  events : List OsEvent
  ticks : List (List OsEvent)
  deriving Repr

/-- The loop of `DiagSequence`, until there is no next command or `running` is cleared. -/
def diagRounds (sensor : CANDiagSensor) (calculator : CANDiagCalculator) :
    CANDiagCommand → List DiagRound → Session
  | _, [] => .quiet true
  | hdrCmd, round :: rounds =>
      (executeCommand sensor.kind sensor.comHandler (hdrCmd.cmd.take hdrCmd.size) 64
        round.events).andThen <| (keepAliveTicks sensor calculator round.ticks).andThen <|
          match CANDiagCalculator.nextCommand hdrCmd CommandType.cmdNorm.code with
          | none => .quiet false
          | some none => .quiet true
          | some (some next) => diagRounds sensor calculator next rounds

def diagSequence (sensor : CANDiagSensor) (calculator : CANDiagCalculator)
    (rounds : List DiagRound) : Session :=
  match calculator.firstCommand CommandType.cmdNorm.code with
  | none => .quiet false
  | some none => .quiet true
  | some (some hdrCmd) => diagRounds sensor calculator hdrCmd rounds

/-- What one round of `Loop` meets: the events that the start command sees, the ticks in front
of the first normal command, and the rounds of the sequence. -/
structure DiagEnvironment where
  start : List OsEvent
  ticks : List (List OsEvent)
  rounds : List DiagRound
  deriving Repr

/-- One round of `Loop`, for a calculator of the sensor. -/
def loopRound (sensor : CANDiagSensor) (calculator : CANDiagCalculator) (env : DiagEnvironment) :
    Session :=
  (diagStart sensor calculator env.start).andThen <| (keepAliveStart sensor calculator).andThen <|
    (keepAliveTicks sensor calculator env.ticks).andThen (diagSequence sensor calculator env.rounds)

end Pyrn.Can
