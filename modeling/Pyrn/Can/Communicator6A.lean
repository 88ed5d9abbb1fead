import Pyrn.Can.DiagCalculator
import Pyrn.Can.Message

/-!
# The 6A communicators

`CANCommunicator6A` is the master that executes a command and gathers the reply from one short
frame, or from a first frame and its continuation frames. `CANCommunicatorSim6A` is the slave
that answers it.
-/

namespace Pyrn.Can

def CANMessage.byte (msg : CANMessage) (i : Nat) : UInt8 := msg.data.getD i 0

/-- The message that carries some data on the bus; the bytes behind them are not sent. -/
def CANMessage.ofData (id : UInt32) (data : List UInt8) (h : data.length ≤ 8) : CANMessage where
  id := id
  data := data ++ List.replicate (8 - data.length) 0
  len := UInt8.ofNat data.length
  format := .CANStandard
  type := .CANData
  data_length := by
    rw [List.length_append,List.length_replicate]
    omega

/-- `CANInterface::Send`; `none` is a write past the eight bytes of the message. -/
def send (id : UInt32) (data : List UInt8) : Option CANMessage :=
  if h : data.length ≤ 8 then some (.ofData id data h) else none

/-- The copy of a message that `CANCommunicatorMaster::event` puts into the queue. -/
def CANMessage.copy (msg : CANMessage) : CANMessage where
  id := msg.id
  data := msg.data.take msg.len.toNat ++ List.replicate (8 - msg.len.toNat) 0
  len := msg.len
  format := .CANStandard
  type := .CANData
  data_length := by
    rw [List.length_append,List.length_take,List.length_replicate,msg.data_length]
    omega

/-- The payload bytes of a message that have arrived: those inside its length. -/
def CANMessage.arrived (msg : CANMessage) (first count : Nat) : List UInt8 :=
  ((msg.data.take msg.len.toNat).drop first).take count

inductive CommState
  | idle
  | extCmd
  deriving DecidableEq, Repr

/-- The state, the variables and the results of `ExecuteCommand`. `accepted` is not in the
source: the payload bytes that have arrived in the frames of the reply at hand. A frame that is
taken in the idle state begins a new reply. -/
structure Execution where
  state : CommState
  currLen : UInt8
  respLen : UInt8
  response : List UInt8
  accepted : List UInt8
  deriving DecidableEq, Repr

inductive Progress
  | waiting (st : Execution)
  | returned (st : Execution)
  deriving DecidableEq, Repr

/-- What `queue.get` gives. -/
inductive OsEvent
  | message (msg : CANMessage)
  | timeout
  | other
  deriving DecidableEq, Repr

namespace CANCommunicator6A

/-- The acknowledge command of the calculator as a message: `none` is a memory fault in the
search or in the sending, `some none` that there is no such command. -/
def ackMessage (calculator : CANDiagCalculator) : Option (Option CANMessage) := do
  match ← calculator.firstCommand CommandType.cmdAck.code with
  | none => return none
  | some hdrCmd =>
      let cmd ← Buffer.load hdrCmd.cmd 0 hdrCmd.size
      let msg ← send calculator.calcHeader.addrSrc cmd
      return some msg

/-- The idle state: the start of a reply. -/
def onIdle (calculator : CANDiagCalculator) (st : Execution) (msg : CANMessage) :
    Option (Progress × List CANMessage) :=
  if msg.byte 0 &&& 0xF0 = 0x00 then do
    let respLen := msg.byte 0
    let data ← Buffer.load msg.data 1 respLen.toNat
    let response ← Buffer.store st.response 0 data
    return (.returned { st with
      respLen := respLen, response := response, accepted := msg.arrived 1 respLen.toNat },[])
  else if msg.byte 0 = 0x10 then do
    let respLen := msg.byte 1
    let data ← Buffer.load msg.data 2 6
    let response ← Buffer.store st.response 0 data
    let st := { st with
      currLen := 6, respLen := respLen, response := response,
      accepted := msg.arrived 2 respLen.toNat }
    match ← ackMessage calculator with
    | some ack => return (.waiting { st with state := .extCmd },[ack])
    | none => return (.waiting st,[])
  else some (.waiting st,[])

/-- The extended state: the continuation of a reply. The difference is an `int`, and its
conversion to `uint8_t` wraps. -/
def onExtCmd (st : Execution) (msg : CANMessage) : Option (Progress × List CANMessage) :=
  if msg.byte 0 &&& 0xF0 = 0x20 then do
    let payloadSz := if (st.respLen.toNat : Int) - st.currLen.toNat < 7 then
      st.respLen - st.currLen else 7
    let data ← Buffer.load msg.data 1 payloadSz.toNat
    let response ← Buffer.store st.response st.currLen.toNat data
    let st := { st with
      currLen := st.currLen + payloadSz, response := response,
      accepted := st.accepted ++ msg.arrived 1 payloadSz.toNat }
    if st.currLen ≥ st.respLen then return (.returned { st with state := .idle },[])
    else return (.waiting st,[])
  else some (.waiting st,[])

/-- One round of the loop, with the messages that it sends. -/
def onEvent (calculator : CANDiagCalculator) (st : Execution) :
    OsEvent → Option (Progress × List CANMessage)
  | .message msg =>
      match st.state with
      | .idle => onIdle calculator st msg
      | .extCmd => onExtCmd st msg
  | .timeout => some (.returned { st with state := .idle },[])
  | .other => some (.waiting st,[])

/-- The loop over the events that it sees. -/
def waitLoop (calculator : CANDiagCalculator) : Execution → List OsEvent → Option Progress
  | st, [] => some (.waiting st)
  | st, evt :: evts => do
      let (progress,_) ← onEvent calculator st evt
      match progress with
      | .waiting next => waitLoop calculator next evts
      | .returned last => return .returned last

/-- The variables when the loop begins, with the memory at `response`. -/
def start (response : List UInt8) : Execution := ⟨.idle,0,0,response,[]⟩

/-- `ExecuteCommand` with a place for `*respLen`, on the events seen by the loop. `none` is a
memory fault. -/
def executeCommand (bus : UInt8) (calculator : Option CANDiagCalculator)
    (response : Option (List UInt8)) (msTmo : UInt32) (evts : List OsEvent) : Option Progress :=
  match calculator, response with
  | some calculator, some response =>
      if bus ≠ 0 ∧ msTmo ≠ 0 then waitLoop calculator (start response) evts
      else some (.returned (start response))
  | _, _ => some (.returned (start (response.getD [])))

section Idle

variable {calculator : CANDiagCalculator} {st : Execution} {msg : CANMessage}

/-- A short frame ends the wait, or its copy leaves the message or the response buffer. -/
theorem onIdle_short_cases (hhead : msg.byte 0 &&& 0xF0 = 0x00) :
    (onIdle calculator st msg = none ∧
      ¬(1 + (msg.byte 0).toNat ≤ 8 ∧ (msg.byte 0).toNat ≤ st.response.length)) ∨
    ∃ last, onIdle calculator st msg = some (.returned last,[]) ∧
      (1 + (msg.byte 0).toNat ≤ 8 ∧ (msg.byte 0).toNat ≤ st.response.length) ∧
      last.respLen = msg.byte 0 ∧ last.accepted = msg.arrived 1 (msg.byte 0).toNat ∧
      last.response.take (msg.byte 0).toNat = (msg.data.drop 1).take (msg.byte 0).toNat := by
  rw [onIdle,if_pos hhead]
  simp only [Option.bind_eq_bind]
  by_cases hdata : 1 + (msg.byte 0).toNat ≤ 8
  · have hload : Buffer.load msg.data 1 (msg.byte 0).toNat =
        some ((msg.data.drop 1).take (msg.byte 0).toNat) := by
      apply Buffer.load_cast 1 (msg.byte 0).toNat rfl rfl
      rw [msg.data_length]
      exact hdata
    have hcount : ((msg.data.drop 1).take (msg.byte 0).toNat).length = (msg.byte 0).toNat := by
      rw [List.length_take,List.length_drop,msg.data_length]
      omega
    rw [hload]
    simp only [Option.bind_some]
    by_cases hroom : (msg.byte 0).toNat ≤ st.response.length
    · right
      rw [Buffer.store_zero_of_le (by rw [hcount]; exact hroom)]
      exact ⟨_,rfl,⟨hdata,hroom⟩,rfl,rfl,List.take_left' hcount⟩
    · left
      have hstore : Buffer.store st.response 0 ((msg.data.drop 1).take (msg.byte 0).toNat) =
          none := by
        apply if_neg
        rw [hcount]
        omega
      rw [hstore]
      exact ⟨rfl,fun hboth => hroom hboth.2⟩
  · left
    have hload : Buffer.load msg.data 1 (msg.byte 0).toNat = none := by
      apply if_neg
      rw [msg.data_length]
      omega
    rw [hload]
    exact ⟨rfl,fun hboth => hdata hboth.1⟩

/-- The variables behind a first frame. -/
structure Begun (msg : CANMessage) (cap : Nat) (next : Execution) : Prop where
  respLen : next.respLen = msg.byte 1
  currLen : next.currLen = 6
  accepted : next.accepted = msg.arrived 2 (msg.byte 1).toNat
  response : next.response.take 6 = (msg.data.drop 2).take 6
  room : next.response.length = cap

/-- A first frame: acknowledged, not acknowledged, or a memory fault. -/
theorem onIdle_first_cases (hshort : ¬msg.byte 0 &&& 0xF0 = 0x00) (hhead : msg.byte 0 = 0x10) :
    (onIdle calculator st msg = none ∧
      ¬(6 ≤ st.response.length ∧ ackMessage calculator ≠ none)) ∨
    ∃ next, Begun msg st.response.length next ∧ 6 ≤ st.response.length ∧
      ((ackMessage calculator = some none ∧ next.state = st.state ∧
          onIdle calculator st msg = some (.waiting next,[])) ∨
        ∃ ack, ackMessage calculator = some (some ack) ∧
          next.state = .extCmd ∧
          onIdle calculator st msg = some (.waiting next,[ack])) := by
  have hload : Buffer.load msg.data 2 6 = some ((msg.data.drop 2).take 6) := by
    apply Buffer.load_cast 2 6 rfl rfl
    rw [msg.data_length]
  have hsix : ((msg.data.drop 2).take 6).length = 6 := by
    rw [List.length_take,List.length_drop,msg.data_length]
    rfl
  rw [onIdle,if_neg hshort,if_pos hhead]
  simp only [Option.bind_eq_bind]
  rw [hload]
  simp only [Option.bind_some]
  by_cases hroom : 6 ≤ st.response.length
  · rw [Buffer.store_zero_of_le (by rw [hsix]; exact hroom)]
    simp only [Option.bind_some]
    have hlength : ((msg.data.drop 2).take 6 ++
        st.response.drop ((msg.data.drop 2).take 6).length).length = st.response.length := by
      rw [List.length_append,List.length_drop,hsix]
      omega
    let begun : Execution := { st with
      currLen := 6
      respLen := msg.byte 1
      response := (msg.data.drop 2).take 6 ++ st.response.drop ((msg.data.drop 2).take 6).length
      accepted := msg.arrived 2 (msg.byte 1).toNat }
    cases hack : ackMessage calculator with
    | none => exact .inl ⟨rfl,fun hboth => hboth.2 rfl⟩
    | some found =>
      right
      cases found with
      | none =>
        exact ⟨begun,⟨rfl,rfl,rfl,List.take_left' hsix,hlength⟩,hroom,.inl ⟨rfl,rfl,rfl⟩⟩
      | some ack =>
        exact ⟨{ begun with state := .extCmd },⟨rfl,rfl,rfl,List.take_left' hsix,hlength⟩,
          hroom,.inr ⟨ack,rfl,rfl,rfl⟩⟩
  · left
    have hstore : Buffer.store st.response 0 ((msg.data.drop 2).take 6) = none := by
      apply if_neg
      rw [hsix]
      omega
    rw [hstore]
    exact ⟨rfl,fun hboth => hroom hboth.1⟩

end Idle

/-- The copied length does not wrap while it does not exceed what is missing. -/
theorem payloadSz_toNat {respLen currLen : UInt8} (hle : currLen.toNat ≤ respLen.toNat) :
    (if (respLen.toNat : Int) - currLen.toNat < 7 then respLen - currLen else 7 : UInt8).toNat =
      min 7 (respLen.toNat - currLen.toNat) := by
  split_ifs with hfew
  · rw [UInt8.toNat_sub_of_le _ _ (UInt8.le_iff_toNat_le.mpr hle)]
    omega
  · have hseven : min 7 (respLen.toNat - currLen.toNat) = 7 := by omega
    rw [hseven]
    rfl

/-- A continuation frame faults exactly when its copy leaves the message or the response. -/
theorem onExtCmd_eq_none_iff {st : Execution} {msg : CANMessage} {size : Nat}
    (hhead : msg.byte 0 &&& 0xF0 = 0x20)
    (hsize : (if (st.respLen.toNat : Int) - st.currLen.toNat < 7 then
      st.respLen - st.currLen else 7 : UInt8).toNat = size) :
    onExtCmd st msg = none ↔
      ¬(1 + size ≤ 8 ∧ st.currLen.toNat + size ≤ st.response.length) := by
  generalize hp : (if (st.respLen.toNat : Int) - st.currLen.toNat < 7 then
    st.respLen - st.currLen else 7 : UInt8) = payloadSz at hsize
  rw [onExtCmd,if_pos hhead,hp]
  dsimp only
  rw [hsize]
  by_cases hdata : 1 + size ≤ 8
  · have hload : Buffer.load msg.data 1 size = some ((msg.data.drop 1).take size) := by
      apply Buffer.load_cast 1 size rfl rfl
      rw [msg.data_length]
      exact hdata
    have hcount : ((msg.data.drop 1).take size).length = size := by
      rw [List.length_take,List.length_drop,msg.data_length]
      omega
    rw [hload]
    simp only [Option.bind_eq_bind,Option.bind_some]
    by_cases hroom : st.currLen.toNat + size ≤ st.response.length
    · rw [Buffer.store_of_le (by rw [hcount]; exact hroom)]
      simp only [Option.bind_some]
      refine iff_of_false ?_ (not_not.mpr ⟨hdata,hroom⟩)
      split <;> exact Option.some_ne_none _
    · have hstore : Buffer.store st.response st.currLen.toNat ((msg.data.drop 1).take size) =
          none := by
        apply if_neg
        rw [hcount]
        omega
      rw [hstore]
      exact iff_of_true rfl fun hboth => hroom hboth.2
  · have hload : Buffer.load msg.data 1 size = none := by
      apply if_neg
      rw [msg.data_length]
      omega
    rw [hload]
    exact iff_of_true rfl fun hboth => hdata hboth.1

/-- A continuation frame for a reply that is not complete: its bytes are copied behind the
others, and the wait ends when no more are missing. -/
theorem onExtCmd_continuation {st : Execution} {msg : CANMessage} {size : Nat}
    (hhead : msg.byte 0 &&& 0xF0 = 0x20) (hle : st.currLen.toNat ≤ st.respLen.toNat)
    (hsize : size = min 7 (st.respLen.toNat - st.currLen.toNat))
    (hfits : st.currLen.toNat + size ≤ st.response.length) :
    ∃ next : Execution, next.state = st.state ∧ next.respLen = st.respLen ∧
      next.currLen.toNat = st.currLen.toNat + size ∧
      next.response =
        Buffer.splice st.response st.currLen.toNat ((msg.data.drop 1).take size) ∧
      next.accepted = st.accepted ++ msg.arrived 1 size ∧
      onExtCmd st msg = some (if st.respLen.toNat ≤ st.currLen.toNat + 7 then
        .returned { next with state := .idle } else .waiting next,[]) := by
  have hpayload := payloadSz_toNat hle
  rw [← hsize] at hpayload
  generalize hp : (if (st.respLen.toNat : Int) - st.currLen.toNat < 7 then
    st.respLen - st.currLen else 7 : UInt8) = payloadSz at hpayload
  have hcurrLen : (st.currLen + payloadSz).toNat = st.currLen.toNat + size := by
    have hmax := UInt8.toNat_lt st.respLen
    rw [UInt8.toNat_add,hpayload]
    omega
  have hload : Buffer.load msg.data 1 payloadSz.toNat = some ((msg.data.drop 1).take size) := by
    rw [hpayload]
    apply Buffer.load_cast 1 size rfl rfl
    rw [msg.data_length]
    omega
  have hstore : Buffer.store st.response st.currLen.toNat ((msg.data.drop 1).take size) =
      some (Buffer.splice st.response st.currLen.toNat ((msg.data.drop 1).take size)) := by
    apply Buffer.store_of_le
    rw [List.length_take]
    omega
  have hdone : st.currLen + payloadSz ≥ st.respLen ↔
      st.respLen.toNat ≤ st.currLen.toNat + 7 := by
    rw [ge_iff_le,UInt8.le_iff_toNat_le,hcurrLen]
    omega
  refine ⟨{ st with
    currLen := st.currLen + payloadSz
    response := Buffer.splice st.response st.currLen.toNat ((msg.data.drop 1).take size)
    accepted := st.accepted ++ msg.arrived 1 size },rfl,rfl,hcurrLen,rfl,rfl,?_⟩
  rw [onExtCmd,if_pos hhead,hp]
  simp only [Option.bind_eq_bind]
  rw [hload]
  simp only [Option.bind_some]
  rw [hstore]
  simp only [Option.bind_some,hdone,hpayload]
  split_ifs <;> rfl

end CANCommunicator6A

/-- The state of the slave. -/
structure CANCommunicatorSim6A where
  state : CommState
  iteration : UInt8
  response : List UInt8
  rLen : UInt8
  deriving DecidableEq, Repr

namespace CANCommunicatorSim6A

/-- The results of `RequestDB` for a command; no results are no response. -/
def requestDB (cmd : List UInt8) : List UInt8 :=
  if cmd = [0x10,0xC0] ∨ cmd = [0x21,0xB0] ∨ cmd = [0x21,0xC0] ∨ cmd = [0x21,0xCB] ∨
      cmd = [0x21,0xC2] ∨ cmd = [0x21,0xC9] then
    [25,cmd.getD 0 0 + 0x40,cmd.getD 1 0,0x64,0x65,0x66,0x67,0x68,0x61,0x69,0x6D,0x65,0x6C,0x65,
      0x73,0x68,0x6F,0x6D,0x6D,0x65,0x73,0x67,0x61,0x79,0x79,0x7A]
  else []

/-- The payload of a response frame, in a buffer that is large enough. -/
def formatResponse (response : List UInt8) (responseSz it : UInt8) : Option (List UInt8) :=
  if responseSz ≤ 7 then Buffer.load response 0 responseSz.toNat
  else do
    let head : UInt8 := if it = 0 then 0x10 else 0x20 ||| (0x0F &&& it)
    let l := if (it.toNat + 1) * 7 ≤ responseSz.toNat then 7 else responseSz.toNat % 7
    let data ← Buffer.load response (it.toNat * 7 : Nat) l
    return head :: data

/-- The loop that sends the frames behind the first one. Its counter wraps, and meets the
largest value within 256 rounds. -/
def sendRest (addrSrc : UInt32) (response : List UInt8) (rLen : UInt8) :
    Nat → UInt8 → UInt8 → Option (List CANMessage × UInt8)
  | 0, _, _ => none
  | fuel + 1, i, iteration =>
      if i < rLen then do
        let payload ← formatResponse response rLen iteration
        let msg ← send addrSrc payload
        let (later,iteration) ← sendRest addrSrc response rLen fuel (i + 7) (iteration + 1)
        return (msg :: later,iteration)
      else some ([],iteration)

/-- `event` on a message: the messages that it sends, and the state after it. `none` is a
memory fault. -/
def event (addrSrc : UInt32) (requestDB : List UInt8 → List UInt8)
    (st : CANCommunicatorSim6A) (msg : CANMessage) :
    Option (List CANMessage × CANCommunicatorSim6A) :=
  if msg.byte 0 = 0x01 ∧ msg.byte 1 = 0x3E then do
    let alive ← send addrSrc [0x01,0x7E]
    return ([alive],st)
  else match st.state with
    | .idle =>
        if msg.byte 0 &&& 0x0F ≠ 0 then do
          let payload ← Buffer.load msg.data 1 (msg.byte 0).toNat
          let results := requestDB payload
          let response ← Buffer.store st.response 0 results
          let rLen := UInt8.ofNat results.length
          if rLen ≠ 0 then
            let answer ← formatResponse response rLen 0
            let msg ← send addrSrc answer
            if rLen ≤ 7 then return ([msg],⟨.idle,0,response,rLen⟩)
            else return ([msg],⟨.extCmd,1,response,rLen⟩)
          else return ([],⟨.idle,0,response,rLen⟩)
        else some ([],st)
    | .extCmd =>
        if msg.byte 0 = 0x30 ∧ msg.byte 1 = 0x00 ∧ msg.byte 2 = 0x0A then do
          let (sent,iteration) ← sendRest addrSrc st.response st.rLen 256 7 st.iteration
          return (sent,⟨.idle,iteration,st.response,0⟩)
        else some ([],{ st with state := .idle })

end CANCommunicatorSim6A

end Pyrn.Can
