import Pyrn.Can.FifoMessage
import Pyrn.Framework.Run

/-!
# The CAN receive path

Two receive interrupts put hardware frames into the FIFO of their bus; the main loop takes them
out and dispatches them. Each interrupt and each FIFO access of the main loop is one atomic step.
-/

namespace Pyrn.Can

/-- The part of a `CANInterface` that frames pass through; `msg` is the message that the main
loop has taken from the FIFO of a bus and not yet dispatched. -/
structure CANInterface where
  fifo1RxMsg : CANFifoMessage
  fifo2RxMsg : CANFifoMessage
  rxOvf : Bool
  msg : Option (UInt8 × CANMessage)
  deriving DecidableEq, Repr

inductive RxStep
  /-- `RxCbCan1`, with what `bus1->read` finds. -/
  | rxCbCan1 (frame : Option CANMessage)
  | rxCbCan2 (frame : Option CANMessage)
  /-- The next atomic step of the main loop; `bus` is the bus it polls when it begins a poll. -/
  | main (bus : UInt8)
  /-- The main loop notices and clears `rxOvf`. -/
  | clearOvf
  deriving DecidableEq, Repr

/-- What can be seen of a step. -/
inductive RxEvent
  | silent
  | accepted (bus : UInt8) (frame : CANMessage)
  | refused (bus : UInt8) (frame : CANMessage)
  | dispatched (bus : UInt8) (frame : CANMessage)
  deriving DecidableEq, Repr

namespace CANInterface

/-- The constructor; `rxOvf` is not initialised. -/
def new (rxOvf : Bool) : CANInterface := ⟨.new,.new,rxOvf,none⟩

def putEvent (bus : UInt8) (frame : CANMessage) (stored : Bool) : RxEvent :=
  if stored then .accepted bus frame else .refused bus frame

def rxCbCan1 (st : CANInterface) : Option CANMessage → Option (RxEvent × CANInterface)
  | none => some (.silent,st)
  | some m => do
      let (stored,fifo) ← st.fifo1RxMsg.put m
      return (putEvent 1 m stored,{ st with fifo1RxMsg := fifo, rxOvf := !stored })

def rxCbCan2 (st : CANInterface) : Option CANMessage → Option (RxEvent × CANInterface)
  | none => some (.silent,st)
  | some m => do
      let (stored,fifo) ← st.fifo2RxMsg.put m
      return (putEvent 2 m stored,{ st with fifo2RxMsg := fifo, rxOvf := !stored })

/-- The atomic section of `ProcessMsgFromRxFifo`. -/
def getFromRxFifo (st : CANInterface) (bus : UInt8) : Option CANInterface :=
  if bus = 1 then do
    let (gotMsg,fifo) ← st.fifo1RxMsg.get
    return { st with fifo1RxMsg := fifo, msg := gotMsg.map fun m => (bus,m) }
  else if bus = 2 then do
    let (gotMsg,fifo) ← st.fifo2RxMsg.get
    return { st with fifo2RxMsg := fifo, msg := gotMsg.map fun m => (bus,m) }
  else some st

/-- A step of the main loop: the dispatch of the message it holds, or the next poll. -/
def mainStep (st : CANInterface) (bus : UInt8) : Option (RxEvent × CANInterface) :=
  match st.msg with
  | some (bus,m) => some (.dispatched bus m,{ st with msg := none })
  | none => do
      let polled ← st.getFromRxFifo bus
      return (.silent,polled)

def step (st : CANInterface) : RxStep → Option (RxEvent × CANInterface)
  | .rxCbCan1 frame => st.rxCbCan1 frame
  | .rxCbCan2 frame => st.rxCbCan2 frame
  | .main bus => st.mainStep bus
  | .clearOvf => some (.silent,{ st with rxOvf := false })

/-- The FIFO of a bus, and its interrupt. -/
def fifo (st : CANInterface) (bus : UInt8) : CANFifoMessage :=
  if bus = 1 then st.fifo1RxMsg else st.fifo2RxMsg

def rxCb (bus : UInt8) (frame : Option CANMessage) : RxStep :=
  if bus = 1 then .rxCbCan1 frame else .rxCbCan2 frame

end CANInterface

/-- The frames of a bus that its FIFO has accepted. -/
def acceptedOn (bus : UInt8) : RxEvent → List CANMessage
  | .accepted b m => if b = bus then [m] else []
  | _ => []

/-- The frames that `DispatchCANMessage` is called with for a bus. -/
def dispatchedOn (bus : UInt8) : RxEvent → List CANMessage
  | .dispatched b m => if b = bus then [m] else []
  | _ => []

/-- The abstract path: a queue for each bus and the message in hand. -/
structure RxQueues where
  queue1 : List CANMessage
  queue2 : List CANMessage
  msg : Option (UInt8 × CANMessage)
  deriving DecidableEq, Repr

def RxQueues.pending (queues : RxQueues) (bus : UInt8) : List CANMessage :=
  if bus = 1 then queues.queue1 else if bus = 2 then queues.queue2 else []

/-- The message of a bus that is in the hands of the main loop. -/
def heldFor (bus : UInt8) : Option (UInt8 × CANMessage) → List CANMessage
  | some (b,m) => if b = bus then [m] else []
  | none => []

/-- A queue takes a frame while fewer than `FIFO_SIZE - 1` are pending. -/
def offer (bus : UInt8) (queue : List CANMessage) (m : CANMessage) : RxEvent × List CANMessage :=
  if queue.length < fifoSize - 1 then (.accepted bus m,queue ++ [m]) else (.refused bus m,queue)

def rxStep (queues : RxQueues) : RxStep → RxEvent × RxQueues
  | .rxCbCan1 (some m) =>
      let offered := offer 1 queues.queue1 m
      (offered.1,{ queues with queue1 := offered.2 })
  | .rxCbCan2 (some m) =>
      let offered := offer 2 queues.queue2 m
      (offered.1,{ queues with queue2 := offered.2 })
  | .main bus =>
      match queues.msg with
      | some (b,m) => (.dispatched b m,{ queues with msg := none })
      | none =>
          if bus = 1 then
            (.silent,⟨queues.queue1.tail,queues.queue2,queues.queue1.head?.map fun m => (bus,m)⟩)
          else if bus = 2 then
            (.silent,⟨queues.queue1,queues.queue2.tail,queues.queue2.head?.map fun m => (bus,m)⟩)
          else (.silent,queues)
  | _ => (.silent,queues)

end Pyrn.Can
