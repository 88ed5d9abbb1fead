import Pyrn.Can.Communicator6A
import Pyrn.Framework.MaximalRun
import Mathlib.Data.List.GetD

/-!
# The segmented response

Master and slave exchange frames over two channels that keep the order and lose nothing. Every
order of their steps ends with the reply of the slave in the hands of the master.
-/

namespace Pyrn.Can

open Transition

/-- The two parties: the calculator of the master, the header of the slave's calculator, and the
data base of the slave. -/
structure Exchange where
  master : CANDiagCalculator
  slave : CANDiagCalculatorHeader
  requestDB : List UInt8 → List UInt8

/-- The master in `ExecuteCommand` with its queue, the slave, and the messages in flight. -/
structure System where
  progress : Progress
  queue : List CANMessage
  toSlave : List CANMessage
  toMaster : List CANMessage
  slave : CANCommunicatorSim6A

def queueSize : Nat := 10

/-- A message reaches the slave if it carries the address that the slave listens to. -/
def Exchange.serve (x : Exchange) (slave : CANCommunicatorSim6A) (msg : CANMessage) :
    Option (List CANMessage × CANCommunicatorSim6A) :=
  if msg.id = x.slave.addrDst then slave.event x.slave.addrSrc x.requestDB msg
  else some ([],slave)

/-- A message is put into the queue while the master listens to its address; a full queue drops
it. -/
def Exchange.enqueue (x : Exchange) (sys : System) (msg : CANMessage) : List CANMessage :=
  match sys.progress with
  | .waiting _ =>
      if msg.id = x.master.calcHeader.addrDst ∧ sys.queue.length < queueSize then
        sys.queue ++ [msg.copy]
      else sys.queue
  | .returned _ => sys.queue

/-- One step of the exchange. As the frames arrive in time, the wait ends only when there is
nothing in flight. -/
inductive Step (x : Exchange) : System → System → Prop
  | serve {sys : System} {msg : CANMessage} {later sent : List CANMessage}
      {slave : CANCommunicatorSim6A} :
      sys.toSlave = msg :: later → x.serve sys.slave msg = some (sent,slave) →
      Step x sys { sys with toSlave := later, toMaster := sys.toMaster ++ sent, slave := slave }
  | receive {sys : System} {msg : CANMessage} {later : List CANMessage} :
      sys.toMaster = msg :: later →
      Step x sys { sys with toMaster := later, queue := x.enqueue sys msg }
  | get {sys : System} {st : Execution} {msg : CANMessage} {later sent : List CANMessage}
      {progress : Progress} :
      sys.progress = .waiting st → sys.queue = msg :: later →
      CANCommunicator6A.onEvent x.master st (.message msg) = some (progress,sent) →
      Step x sys { sys with progress := progress, queue := later, toSlave := sys.toSlave ++ sent }
  | timeout {sys : System} {st : Execution} {sent : List CANMessage} {progress : Progress} :
      sys.progress = .waiting st → sys.queue = [] → sys.toSlave = [] → sys.toMaster = [] →
      CANCommunicator6A.onEvent x.master st .timeout = some (progress,sent) →
      Step x sys { sys with progress := progress, toSlave := sys.toSlave ++ sent }

/-- The master has returned with some bytes as the response. -/
def Answered (body : List UInt8) (sys : System) : Prop :=
  ∃ st, sys.progress = .returned st ∧ st.respLen.toNat = body.length ∧
    st.response.take body.length = body

section Messages

variable {id : UInt32} {data : List UInt8} (h : data.length ≤ 8)

include h

theorem send_of_le : send id data = some (.ofData id data h) := dif_pos h

theorem ofData_len : (CANMessage.ofData id data h).len.toNat = data.length := by
  have hlen : (UInt8.ofNat data.length).toNat = data.length := by
    rw [UInt8.toNat_ofNat']
    omega
  exact hlen

theorem copy_ofData : (CANMessage.ofData id data h).copy = .ofData id data h := by
  have htake : (data ++ List.replicate (8 - data.length) 0).take data.length = data :=
    List.take_left
  simp only [CANMessage.copy,ofData_len h]
  simp only [CANMessage.ofData,htake]

theorem byte_ofData {i : Nat} (hi : i < data.length) :
    (CANMessage.ofData id data h).byte i = data[i] := by
  rw [CANMessage.byte,CANMessage.ofData,List.getD_append _ _ _ _ hi,List.getD_eq_getElem _ _ hi]

theorem take_drop_ofData {first count : Nat} (hcount : first + count ≤ data.length) :
    ((CANMessage.ofData id data h).data.drop first).take count = (data.drop first).take count := by
  rw [CANMessage.ofData]
  simp only
  rw [List.drop_append_of_le_length (by omega),List.take_append_of_le_length]
  rw [List.length_drop]
  omega

theorem load_ofData {first count : Nat} (hcount : first + count ≤ data.length) :
    Buffer.load (CANMessage.ofData id data h).data first count =
      some ((data.drop first).take count) := by
  have hfits : first + count ≤ (CANMessage.ofData id data h).data.length := by
    rw [(CANMessage.ofData id data h).data_length]
    omega
  rw [Buffer.load_of_le hfits,take_drop_ofData h hcount]

end Messages

section Slave

/-- Frame `k` of a long reply: the first frame or a continuation frame. -/
def segment (reply : List UInt8) (k : Nat) : List UInt8 :=
  (if k = 0 then 0x10 else 0x20 ||| (0x0F &&& UInt8.ofNat k)) :: (reply.drop (k * 7)).take 7

theorem segment_length_le (reply : List UInt8) (k : Nat) : (segment reply k).length ≤ 8 := by
  rw [segment,List.length_cons,List.length_take]
  omega

def segmentMessage (id : UInt32) (reply : List UInt8) (k : Nat) : CANMessage :=
  .ofData id (segment reply k) (segment_length_le reply k)

variable {reply behind : List UInt8}

theorem toNat_ofNat_of_lt {n : Nat} (h : n < 256) : (UInt8.ofNat n).toNat = n := by
  rw [UInt8.toNat_ofNat']
  exact Nat.mod_eq_of_lt h

/-- A short reply is its own frame. -/
theorem formatResponse_short (hshort : reply.length ≤ 7) :
    CANCommunicatorSim6A.formatResponse (reply ++ behind) (UInt8.ofNat reply.length) 0 =
      some reply := by
  have hn : (UInt8.ofNat reply.length).toNat = reply.length := toNat_ofNat_of_lt (by omega)
  have hle : UInt8.ofNat reply.length ≤ 7 := by
    rw [UInt8.le_iff_toNat_le,hn]
    exact hshort
  rw [CANCommunicatorSim6A.formatResponse,if_pos hle,hn,Buffer.load_zero_of_le,List.take_left]
  rw [List.length_append]
  exact Nat.le_add_right _ _

/-- Frame `k` of a long reply; the modulo gives what is left for the last frame. -/
theorem formatResponse_long {k : Nat} (hlong : 7 < reply.length) (hmax : reply.length ≤ 32)
    (hk : k * 7 < reply.length) :
    CANCommunicatorSim6A.formatResponse (reply ++ behind) (UInt8.ofNat reply.length)
      (UInt8.ofNat k) = some (segment reply k) := by
  have hn : (UInt8.ofNat reply.length).toNat = reply.length := toNat_ofNat_of_lt (by omega)
  have hit : (UInt8.ofNat k).toNat = k := toNat_ofNat_of_lt (by omega)
  have hlarge : ¬UInt8.ofNat reply.length ≤ 7 := by
    rw [UInt8.le_iff_toNat_le,hn]
    exact not_le.mpr hlong
  have hzero : UInt8.ofNat k = 0 ↔ k = 0 := by
    rw [← UInt8.toNat_inj,hit]
    rfl
  have hcount : (if (k + 1) * 7 ≤ reply.length then 7 else reply.length % 7) =
      min 7 (reply.length - k * 7) := by
    split_ifs with hfull <;> omega
  have hload : Buffer.load (reply ++ behind) (k * 7 : Nat) (min 7 (reply.length - k * 7) : Nat) =
      some ((reply.drop (k * 7)).take 7) := by
    rw [Buffer.load_of_le (by rw [List.length_append]; omega),
      List.drop_append_of_le_length (by omega),
      List.take_append_of_le_length (by rw [List.length_drop]; omega)]
    congr 1
    rw [← List.length_drop,← List.take_eq_take_min]
  rw [CANCommunicatorSim6A.formatResponse,if_neg hlarge,hn,hit]
  simp only
  rw [hcount,hload,segment]
  simp only [hzero]
  rfl

/-- The frames behind the first one. -/
theorem sendRest_eq (id : UInt32) {fuel k count : Nat} (hlong : 7 < reply.length)
    (hmax : reply.length ≤ 32) (hfuel : count < fuel) (hk : 0 < k)
    (hcover : reply.length ≤ (k + count) * 7) (htight : (k + count) * 7 < reply.length + 7) :
    ∃ iteration, CANCommunicatorSim6A.sendRest id (reply ++ behind) (UInt8.ofNat reply.length) fuel
        (UInt8.ofNat (k * 7)) (UInt8.ofNat k) =
      some ((List.range' k count).map (segmentMessage id reply),iteration) := by
  have hn : (UInt8.ofNat reply.length).toNat = reply.length := toNat_ofNat_of_lt (by omega)
  have hi : (UInt8.ofNat (k * 7)).toNat = k * 7 := toNat_ofNat_of_lt (by omega)
  induction count generalizing fuel k with
  | zero =>
    obtain ⟨fuel,rfl⟩ := Nat.exists_eq_succ_of_ne_zero (Nat.ne_zero_of_lt hfuel)
    have hend : ¬UInt8.ofNat (k * 7) < UInt8.ofNat reply.length := by
      rw [UInt8.lt_iff_toNat_lt,hn,hi]
      omega
    rw [CANCommunicatorSim6A.sendRest,if_neg hend]
    exact ⟨_,rfl⟩
  | succ count ih =>
    obtain ⟨fuel,rfl⟩ := Nat.exists_eq_succ_of_ne_zero (Nat.ne_zero_of_lt hfuel)
    have hmore : k * 7 < reply.length := by omega
    have hnext : UInt8.ofNat (k * 7) < UInt8.ofNat reply.length := by
      rw [UInt8.lt_iff_toNat_lt,hn,hi]
      exact hmore
    have hstep : UInt8.ofNat (k * 7) + 7 = UInt8.ofNat ((k + 1) * 7) := by
      rw [Nat.add_mul,UInt8.ofNat_add]
      rfl
    have hit : UInt8.ofNat k + 1 = UInt8.ofNat (k + 1) := by
      rw [UInt8.ofNat_add]
      rfl
    obtain ⟨iteration,hrest⟩ := ih (Nat.lt_of_succ_lt_succ hfuel) (Nat.succ_pos k) (by omega)
      (by omega) (toNat_ofNat_of_lt (by omega))
    rw [CANCommunicatorSim6A.sendRest,if_pos hnext,formatResponse_long hlong hmax hmore]
    simp only [Option.bind_eq_bind,Option.bind_some]
    rw [send_of_le (segment_length_le reply k),hstep,hit]
    simp only [Option.bind_some]
    rw [hrest,List.range'_succ]
    exact ⟨iteration,rfl⟩

end Slave

section Master

variable {body : List UInt8} {st : Execution}

/-- After `j` continuation frames of a reply with more to come. -/
structure Gathered (body : List UInt8) (j : Nat) (st : Execution) : Prop where
  state : st.state = .extCmd
  respLen : st.respLen = UInt8.ofNat body.length
  currLen : st.currLen = UInt8.ofNat (6 + j * 7)
  response : st.response.take (6 + j * 7) = body.take (6 + j * 7)
  room : body.length ≤ st.response.length
  more : 6 + j * 7 < body.length

/-- The frame of continuation `j + 1` carries the bytes behind those gathered. -/
theorem segment_succ (byte : UInt8) (body : List UInt8) (j : Nat) :
    segment (byte :: body) (j + 1) =
      (0x20 ||| (0x0F &&& UInt8.ofNat (j + 1))) :: (body.drop (6 + j * 7)).take 7 := by
  have hindex : (j + 1) * 7 = 6 + j * 7 + 1 := by omega
  rw [segment,if_neg (Nat.succ_ne_zero j),hindex,List.drop_succ_cons]

theorem continuation_byte {n : Nat} (hn : n < 8) :
    (0x20 ||| (0x0F &&& UInt8.ofNat n)) &&& 0xF0 = 0x20 := by
  have hall : ∀ m < 8, (0x20 ||| (0x0F &&& UInt8.ofNat m)) &&& 0xF0 = 0x20 := by decide
  exact hall n hn

/-- A continuation frame adds its bytes and ends the reply when no more are missing. -/
theorem onExtCmd_segment {byte : UInt8} {id : UInt32} {j : Nat} (hgathered : Gathered body j st)
    (hmax : body.length ≤ 31) :
    ∃ progress, CANCommunicator6A.onExtCmd st (segmentMessage id (byte :: body) (j + 1)) =
        some (progress,[]) ∧
      (6 + (j + 1) * 7 < body.length →
        ∃ next, progress = .waiting next ∧ Gathered body (j + 1) next) ∧
      (body.length ≤ 6 + (j + 1) * 7 → ∃ last, progress = .returned last ∧
        last.respLen.toNat = body.length ∧ last.response.take body.length = body) := by
  have hmore := hgathered.more
  have hroom := hgathered.room
  let size : Nat := min 7 (body.length - (6 + j * 7))
  have hsegment := segment_succ byte body j
  have hlength : (segment (byte :: body) (j + 1)).length = 1 + size := by
    rw [hsegment,List.length_cons,List.length_take,List.length_drop,Nat.add_comm]
  have hrespLen : st.respLen.toNat = body.length := by
    rw [hgathered.respLen]
    exact toNat_ofNat_of_lt (by omega)
  have hcurrLen : st.currLen.toNat = 6 + j * 7 := by
    rw [hgathered.currLen]
    exact toNat_ofNat_of_lt (by omega)
  have hbyte : (segmentMessage id (byte :: body) (j + 1)).byte 0 &&& 0xF0 = 0x20 := by
    rw [segmentMessage,byte_ofData _ (by rw [hlength]; omega)]
    simp only [hsegment,List.getElem_cons_zero]
    exact continuation_byte (by omega)
  have hcopied : ((segmentMessage id (byte :: body) (j + 1)).data.drop 1).take size =
      (body.drop (6 + j * 7)).take size := by
    rw [segmentMessage,take_drop_ofData _ (by rw [hlength]),hsegment,List.drop_succ_cons,
      List.drop_zero,List.take_take,Nat.min_eq_left (Nat.min_le_left _ _)]
  have hcount : ((body.drop (6 + j * 7)).take size).length = size := by
    rw [List.length_take,List.length_drop]
    omega
  obtain ⟨next,hstate,hnextLen,hnextCurr,hresponse,-,hstep⟩ :=
    @CANCommunicator6A.onExtCmd_continuation st (segmentMessage id (byte :: body) (j + 1)) size
      hbyte (by omega) (by rw [hrespLen,hcurrLen]) (by omega)
  rw [hcopied,hcurrLen] at hresponse
  have htake : next.response.take (6 + j * 7 + size) = body.take (6 + j * 7 + size) := by
    rw [hresponse,Buffer.take_splice_add hcount (by omega),hgathered.response,← List.take_add]
  have hfull : next.response.length = st.response.length := by
    rw [hresponse]
    exact Buffer.splice_length (by rw [hcount]; omega)
  rw [hstep,hrespLen,hcurrLen]
  by_cases hend : body.length ≤ 6 + j * 7 + 7
  · have hall : 6 + j * 7 + size = body.length := by omega
    rw [if_pos hend]
    refine ⟨_,rfl,fun h => by omega,fun _ => ⟨_,rfl,?_,?_⟩⟩
    · rw [hnextLen]
      exact hrespLen
    · rw [hall,List.take_length] at htake
      exact htake
  · have hseven : 6 + j * 7 + size = 6 + (j + 1) * 7 := by omega
    rw [if_neg hend]
    refine ⟨_,rfl,fun h => ⟨_,rfl,?_⟩,fun h => by omega⟩
    rw [hseven] at htake
    refine ⟨hstate.trans hgathered.state,hnextLen.trans hgathered.respLen,?_,htake,?_,h⟩
    · apply UInt8.toNat_inj.mp
      rw [hnextCurr,hcurrLen,hseven]
      exact (toNat_ofNat_of_lt (by omega)).symm
    · rw [hfull]
      exact hroom

/-- A first frame of a reply with more to come is acknowledged. -/
theorem onIdle_first {calculator : CANDiagCalculator} {id : UInt32} {ack : CANMessage}
    (hack : CANCommunicator6A.ackMessage calculator = some (some ack)) (hlong : 7 ≤ body.length)
    (hmax : body.length ≤ 31) (hroom : body.length ≤ st.response.length) :
    ∃ next, CANCommunicator6A.onIdle calculator st
        (segmentMessage id (UInt8.ofNat body.length :: body) 0) = some (.waiting next,[ack]) ∧
      Gathered body 0 next := by
  have hsegment : segment (UInt8.ofNat body.length :: body) 0 =
      0x10 :: UInt8.ofNat body.length :: body.take 6 := rfl
  have hlength : (segment (UInt8.ofNat body.length :: body) 0).length = 8 := by
    rw [hsegment,List.length_cons,List.length_cons,List.length_take]
    omega
  let msg : CANMessage := segmentMessage id (UInt8.ofNat body.length :: body) 0
  have hmsg : msg = .ofData id _ (segment_length_le _ 0) := rfl
  have hhead : msg.byte 0 = 0x10 := by
    rw [hmsg,byte_ofData _ (by rw [hlength]; decide)]
    rfl
  have hother : ¬msg.byte 0 &&& 0xF0 = 0x00 := by
    rw [hhead]
    decide
  have hdeclared : msg.byte 1 = UInt8.ofNat body.length := by
    rw [hmsg,byte_ofData _ (by rw [hlength]; decide)]
    rfl
  have hpayload : (msg.data.drop 2).take 6 = body.take 6 := by
    rw [hmsg,take_drop_ofData _ (by rw [hlength]),hsegment,List.drop_succ_cons,
      List.drop_succ_cons,List.drop_zero,List.take_take,Nat.min_self]
  rcases @CANCommunicator6A.onIdle_first_cases calculator st msg hother hhead with
    ⟨-,hbad⟩ | ⟨next,hbegun,-,⟨hnone,-,-⟩ | ⟨found,hfound,hstate,hstep⟩⟩
  · refine absurd ⟨by omega,?_⟩ hbad
    rw [hack]
    exact Option.some_ne_none _
  · rw [hack] at hnone
    cases hnone
  · rw [hack] at hfound
    cases hfound
    refine ⟨next,hstep,hstate,hbegun.respLen.trans hdeclared,hbegun.currLen,
      hbegun.response.trans hpayload,?_,by omega⟩
    rw [hbegun.room]
    exact hroom

/-- A short frame ends the reply. -/
theorem onIdle_short {calculator : CANDiagCalculator} {id : UInt32} (hshort : body.length ≤ 6)
    (hroom : body.length ≤ st.response.length)
    (hfits : (UInt8.ofNat body.length :: body).length ≤ 8) :
    ∃ last, CANCommunicator6A.onIdle calculator st
        (.ofData id (UInt8.ofNat body.length :: body) hfits) = some (.returned last,[]) ∧
      last.respLen.toNat = body.length ∧ last.response.take body.length = body := by
  have hn : (UInt8.ofNat body.length).toNat = body.length := toNat_ofNat_of_lt (by omega)
  have hhead : (CANMessage.ofData id (UInt8.ofNat body.length :: body) hfits).byte 0 =
      UInt8.ofNat body.length := rfl
  have hsmall : UInt8.ofNat body.length &&& 0xF0 = 0x00 := by
    have hall : ∀ n < 7, UInt8.ofNat n &&& 0xF0 = 0x00 := by decide
    exact hall _ (Nat.lt_succ_of_le hshort)
  have hcases := @CANCommunicator6A.onIdle_short_cases calculator st _ (hhead ▸ hsmall)
  rw [hhead,hn] at hcases
  rcases hcases with ⟨-,hbad⟩ | ⟨last,hstep,-,hrespLen,-,htake⟩
  · exact absurd ⟨by omega,hroom⟩ hbad
  · refine ⟨last,hstep,?_,?_⟩
    · rw [hrespLen,hn]
    · rw [htake,take_drop_ofData _ (by rw [List.length_cons,Nat.add_comm]),List.drop_succ_cons,
        List.drop_zero,List.take_length]

end Master

section Service

variable {reply : List UInt8} {st : CANCommunicatorSim6A} {cmd padding : List UInt8}
  {requestDB : List UInt8 → List UInt8} {id addrSrc : UInt32}

/-- A request of one frame: the length of the command and the command. -/
structure Request (cmd padding data : List UInt8) : Prop where
  framed : data = UInt8.ofNat cmd.length :: (cmd ++ padding)
  fits : data.length ≤ 8
  pos : 1 ≤ cmd.length
  notKeepAlive : cmd ≠ [0x3E]

/-- The idle slave looks up the command and sends the first frame of the reply. -/
theorem event_request {data : List UInt8} (hrequest : Request cmd padding data)
    (hstate : st.state = .idle) (hbuffer : st.response.length = 32)
    (hreply : requestDB cmd = reply) (hpos : 1 ≤ reply.length) (hmax : reply.length ≤ 32)
    {answer : List UInt8} (hanswer : CANCommunicatorSim6A.formatResponse
      (reply ++ st.response.drop reply.length) (UInt8.ofNat reply.length) 0 = some answer)
    (hfits : answer.length ≤ 8) :
    st.event addrSrc requestDB (.ofData id data hrequest.fits) =
      some ([.ofData addrSrc answer hfits],if reply.length ≤ 7 then
        ⟨.idle,0,reply ++ st.response.drop reply.length,UInt8.ofNat reply.length⟩
      else ⟨.extCmd,1,reply ++ st.response.drop reply.length,UInt8.ofNat reply.length⟩) := by
  obtain ⟨rfl,hdata,hcmd,halive⟩ := hrequest
  have hfew : cmd.length ≤ 7 := by
    rw [List.length_cons,List.length_append] at hdata
    omega
  have hn : (UInt8.ofNat cmd.length).toNat = cmd.length := toNat_ofNat_of_lt (by omega)
  have hhead : (CANMessage.ofData id (UInt8.ofNat cmd.length :: (cmd ++ padding)) hdata).byte 0 =
      UInt8.ofNat cmd.length := rfl
  have hcommand : ¬((CANMessage.ofData id (UInt8.ofNat cmd.length :: (cmd ++ padding))
      hdata).byte 0 = 0x01 ∧ (CANMessage.ofData id (UInt8.ofNat cmd.length :: (cmd ++ padding))
      hdata).byte 1 = 0x3E) := by
    rintro ⟨hone,hkeep⟩
    rw [hhead,← UInt8.toNat_inj,hn] at hone
    obtain ⟨c,rfl⟩ := List.length_eq_one_iff.mp hone
    have hbyte : c = 0x3E := hkeep
    rw [hbyte] at halive
    exact halive rfl
  have hkind : UInt8.ofNat cmd.length &&& 0x0F ≠ 0 := by
    have hall : ∀ n < 8, 1 ≤ n → UInt8.ofNat n &&& 0x0F ≠ 0 := by decide
    exact hall _ (Nat.lt_succ_of_le hfew) hcmd
  have hload : Buffer.load (CANMessage.ofData id (UInt8.ofNat cmd.length :: (cmd ++ padding))
      hdata).data 1 cmd.length = some cmd := by
    have hwhole : Buffer.load (CANMessage.ofData id (UInt8.ofNat cmd.length :: (cmd ++ padding))
        hdata).data (1 : Nat) cmd.length =
        some (((UInt8.ofNat cmd.length :: (cmd ++ padding)).drop 1).take cmd.length) := by
      apply load_ofData
      rw [List.length_cons,List.length_append]
      omega
    rw [List.drop_succ_cons,List.drop_zero,List.take_left] at hwhole
    exact hwhole
  have hstore : Buffer.store st.response 0 reply =
      some (reply ++ st.response.drop reply.length) :=
    Buffer.store_zero_of_le (by rw [hbuffer]; exact hmax)
  have hrLen : (UInt8.ofNat reply.length).toNat = reply.length := toNat_ofNat_of_lt (by omega)
  have hsome : UInt8.ofNat reply.length ≠ 0 := by
    intro hzero
    rw [hzero] at hrLen
    have hnone : (0 : Nat) = reply.length := hrLen
    omega
  have hshort : UInt8.ofNat reply.length ≤ 7 ↔ reply.length ≤ 7 := by
    rw [UInt8.le_iff_toNat_le,hrLen]
    rfl
  rw [CANCommunicatorSim6A.event,if_neg hcommand,hstate]
  simp only
  rw [hhead,if_pos hkind,hn,hload]
  simp only [Option.bind_eq_bind,Option.bind_some]
  rw [hreply,hstore]
  simp only [Option.bind_some]
  rw [if_pos hsome,hanswer]
  simp only [Option.bind_some]
  rw [send_of_le hfits]
  simp only [Option.bind_some,hshort]
  split_ifs <;> rfl

/-- The acknowledge command makes the slave send the continuation frames. -/
theorem event_ack {behind : List UInt8} (hack : ([0x30,0x00,0x0A] : List UInt8).length ≤ 8)
    (hlong : 7 < reply.length) (hmax : reply.length ≤ 32) :
    ∃ slave, CANCommunicatorSim6A.event addrSrc requestDB
        ⟨.extCmd,1,reply ++ behind,UInt8.ofNat reply.length⟩
        (.ofData id [0x30,0x00,0x0A] hack) =
      some ((List.range' 1 ((reply.length - 1) / 7)).map (segmentMessage addrSrc reply),slave) := by
  obtain ⟨iteration,hrest⟩ := @sendRest_eq reply behind addrSrc 256 1 ((reply.length - 1) / 7)
    hlong hmax (by omega) Nat.one_pos (by omega) (by omega)
  have hcommand : ¬((CANMessage.ofData id [0x30,0x00,0x0A] hack).byte 0 = 0x01 ∧
      (CANMessage.ofData id [0x30,0x00,0x0A] hack).byte 1 = 0x3E) := by
    rintro ⟨hone,-⟩
    cases hone
  have hmatch : (CANMessage.ofData id [0x30,0x00,0x0A] hack).byte 0 = 0x30 ∧
      (CANMessage.ofData id [0x30,0x00,0x0A] hack).byte 1 = 0x00 ∧
      (CANMessage.ofData id [0x30,0x00,0x0A] hack).byte 2 = 0x0A := ⟨rfl,rfl,rfl⟩
  have hloop : CANCommunicatorSim6A.sendRest addrSrc (reply ++ behind)
      (UInt8.ofNat reply.length) 256 7 1 = _ := hrest
  rw [CANCommunicatorSim6A.event,if_neg hcommand]
  simp only
  rw [if_pos hmatch,hloop]
  exact ⟨_,rfl⟩

end Service

section Exchanges

variable {x : Exchange} {body : List UInt8} {st : Execution} {slave : CANCommunicatorSim6A}

/-- A returned master with nothing in flight has ended. -/
theorem ends_of_returned {post : System → Prop} {last : Execution}
    (hpost : post ⟨.returned last,[],[],[],slave⟩) :
    Ends (Step x) post ⟨.returned last,[],[],[],slave⟩ := by
  apply Ends.of_stuck _ hpost
  intro next hstep
  cases hstep with
  | serve hmsg _ => cases hmsg
  | receive hmsg => cases hmsg
  | get hwaiting _ _ => cases hwaiting
  | timeout hwaiting _ _ _ _ => cases hwaiting

/-- A master that waits puts a message to its address into a queue with room. -/
theorem enqueue_of_room {queue toSlave toMaster : List CANMessage} {msg : CANMessage}
    (hid : msg.id = x.master.calcHeader.addrDst) (hcopy : msg.copy = msg)
    (hroom : queue.length < queueSize) :
    x.enqueue ⟨.waiting st,queue,toSlave,toMaster,slave⟩ msg = queue ++ [msg] := by
  rw [Exchange.enqueue]
  simp only
  rw [if_pos ⟨hid,hroom⟩,hcopy]

/-- Frames on their way to the master: in every order of receiving and getting, the first one is
handled, and the others are left in the queue or in flight. -/
theorem ends_of_frames {post : System → Prop} {msg : CANMessage} {rest : List CANMessage}
    {progress : Progress} {sent queue toMaster : List CANMessage}
    (hframes : queue ++ toMaster = msg :: rest)
    (hown : ∀ frame ∈ msg :: rest, frame.id = x.master.calcHeader.addrDst ∧ frame.copy = frame)
    (hfew : rest.length < queueSize)
    (hget : CANCommunicator6A.onEvent x.master st (.message msg) = some (progress,sent))
    (hafter : ∀ queue toMaster, queue ++ toMaster = rest →
      Ends (Step x) post ⟨progress,queue,sent,toMaster,slave⟩) :
    Ends (Step x) post ⟨.waiting st,queue,[],toMaster,slave⟩ := by
  induction toMaster generalizing queue with
  | nil =>
    rw [List.append_nil] at hframes
    subst hframes
    apply Ends.of_step (Step.get rfl rfl hget)
    intro next hstep
    cases hstep with
    | serve hmsg _ => cases hmsg
    | receive hmsg => cases hmsg
    | get hst hmsg hevent =>
      cases hst
      cases hmsg
      rw [hget] at hevent
      cases hevent
      exact hafter _ _ (List.append_nil _)
    | timeout _ hempty _ _ _ => cases hempty
  | cons first later ih =>
    have hlen : queue.length + (later.length + 1) = rest.length + 1 := by
      have hlen := congrArg List.length hframes
      rwa [List.length_append,List.length_cons,List.length_cons] at hlen
    have hmem : first ∈ msg :: rest := hframes ▸ List.mem_append_right _ List.mem_cons_self
    obtain ⟨hid,hcopy⟩ := hown first hmem
    apply Ends.of_step (Step.receive rfl)
    intro next hstep
    cases hstep with
    | serve hmsg _ => cases hmsg
    | receive hmsg =>
      cases hmsg
      rw [enqueue_of_room hid hcopy (by omega)]
      apply ih
      rw [List.append_assoc]
      exact hframes
    | get hst hmsg hevent =>
      cases hst
      dsimp only at hmsg
      rw [hmsg,List.cons_append] at hframes
      obtain ⟨rfl,hrest⟩ := List.cons.inj hframes
      rw [hget] at hevent
      cases hevent
      exact hafter _ _ hrest
    | timeout _ _ _ hempty _ => cases hempty

/-- One message in flight to the master. -/
theorem ends_of_single {post : System → Prop} {msg : CANMessage} {progress : Progress}
    {sent : List CANMessage} (hid : msg.id = x.master.calcHeader.addrDst) (hcopy : msg.copy = msg)
    (hget : CANCommunicator6A.onEvent x.master st (.message msg) = some (progress,sent))
    (hnext : Ends (Step x) post ⟨progress,[],sent,[],slave⟩) :
    Ends (Step x) post ⟨.waiting st,[],[],[msg],slave⟩ := by
  have hown : ∀ frame ∈ [msg], frame.id = x.master.calcHeader.addrDst ∧ frame.copy = frame := by
    intro frame hmem
    rw [List.mem_singleton.mp hmem]
    exact ⟨hid,hcopy⟩
  apply ends_of_frames (List.nil_append [msg]) hown (by decide) hget
  intro queue toMaster hnone
  obtain ⟨rfl,rfl⟩ := List.append_eq_nil_iff.mp hnone
  exact hnext

/-- The continuation frames in flight or in the queue, in order, complete the reply. -/
theorem ends_of_gathered {byte : UInt8} (hmax : body.length ≤ 31) {count j : Nat}
    {queue toMaster : List CANMessage} (hgathered : Gathered body j st)
    (hcover : body.length ≤ 6 + (j + count) * 7) (htight : 6 + (j + count) * 7 < body.length + 7)
    (hframes : queue ++ toMaster = (List.range' (j + 1) count).map
      (segmentMessage x.master.calcHeader.addrDst (byte :: body))) :
    Ends (Step x) (Answered body) ⟨.waiting st,queue,[],toMaster,slave⟩ := by
  induction count generalizing j st queue toMaster with
  | zero =>
    have hmore := hgathered.more
    omega
  | succ count ih =>
    obtain ⟨progress,hstep,hwaiting,hreturned⟩ :=
      @onExtCmd_segment body st byte x.master.calcHeader.addrDst j hgathered hmax
    have hget : CANCommunicator6A.onEvent x.master st (.message
        (segmentMessage x.master.calcHeader.addrDst (byte :: body) (j + 1))) =
        some (progress,[]) := by
      rw [CANCommunicator6A.onEvent,hgathered.state]
      exact hstep
    have hown : ∀ frame ∈ (List.range' (j + 1) (count + 1)).map
        (segmentMessage x.master.calcHeader.addrDst (byte :: body)),
        frame.id = x.master.calcHeader.addrDst ∧ frame.copy = frame := by
      intro frame hmem
      obtain ⟨k,-,rfl⟩ := List.mem_map.mp hmem
      exact ⟨rfl,copy_ofData _⟩
    have hfew : ((List.range' (j + 1 + 1) count).map
        (segmentMessage x.master.calcHeader.addrDst (byte :: body))).length < queueSize := by
      rw [List.length_map,List.length_range',queueSize]
      omega
    rw [List.range'_succ,List.map_cons] at hframes hown
    apply ends_of_frames hframes hown hfew hget
    intro queue toMaster hrest
    by_cases hmore : 6 + (j + 1) * 7 < body.length
    · obtain ⟨next,rfl,hnext⟩ := hwaiting hmore
      exact ih hnext (by omega) (by omega) hrest
    · obtain ⟨last,rfl,hlen,htake⟩ := hreturned (not_lt.mp hmore)
      have hzero : count = 0 := by omega
      subst hzero
      obtain ⟨rfl,rfl⟩ := List.append_eq_nil_iff.mp hrest
      exact ends_of_returned ⟨last,rfl,hlen,htake⟩

theorem ends_of_served {msg : CANMessage} {sent : List CANMessage}
    {served : CANCommunicatorSim6A} {post : System → Prop}
    (hserve : x.serve slave msg = some (sent,served))
    (hnext : Ends (Step x) post ⟨.waiting st,[],[],sent,served⟩) :
    Ends (Step x) post ⟨.waiting st,[],[msg],[],slave⟩ := by
  apply Ends.of_step (Step.serve rfl hserve)
  intro next hstep
  cases hstep with
  | serve hmsg hevent =>
    cases hmsg
    rw [hserve] at hevent
    cases hevent
    exact hnext
  | receive hmsg => cases hmsg
  | get _ hmsg _ => cases hmsg
  | timeout _ _ hempty _ _ => cases hempty

end Exchanges

/-- Master and slave listen to each other. -/
structure Paired (x : Exchange) : Prop where
  request : x.slave.addrDst = x.master.calcHeader.addrSrc
  reply : x.slave.addrSrc = x.master.calcHeader.addrDst

theorem serve_ofData {x : Exchange} (hpaired : Paired x) (slave : CANCommunicatorSim6A)
    {data : List UInt8} (h : data.length ≤ 8) :
    x.serve slave (.ofData x.master.calcHeader.addrSrc data h) =
      slave.event x.master.calcHeader.addrDst x.requestDB
        (.ofData x.master.calcHeader.addrSrc data h) := by
  have hid : (CANMessage.ofData x.master.calcHeader.addrSrc data h).id = x.slave.addrDst :=
    hpaired.request.symm
  rw [Exchange.serve,if_pos hid,hpaired.reply]

/-- The calculator has the acknowledge command `30 00 0A`. -/
def HasAck (calculator : CANDiagCalculator) : Prop :=
  ∃ hdrCmd, calculator.firstCommand CommandType.cmdAck.code = some (some hdrCmd) ∧
    hdrCmd.size = 3 ∧ hdrCmd.cmd.take 3 = [0x30,0x00,0x0A]

theorem ackMessage_of_hasAck {calculator : CANDiagCalculator} (hack : HasAck calculator) :
    CANCommunicator6A.ackMessage calculator =
      some (some (.ofData calculator.calcHeader.addrSrc [0x30,0x00,0x0A] (by decide))) := by
  obtain ⟨hdrCmd,hfirst,hsize,hcmd⟩ := hack
  have hlen : 3 ≤ hdrCmd.cmd.length := by
    have htake := congrArg List.length hcmd
    rw [List.length_take] at htake
    simp only [List.length_cons,List.length_nil] at htake
    omega
  have hload : Buffer.load hdrCmd.cmd 0 hdrCmd.size = some [0x30,0x00,0x0A] := by
    rw [hsize,← hcmd]
    exact Buffer.load_zero_of_le hlen
  rw [CANCommunicator6A.ackMessage,hfirst]
  simp only [Option.bind_eq_bind,Option.bind_some]
  rw [hload]
  rfl

/-- For every reply whose first byte counts the others, `ExecuteCommand` returns with these in
every order of the steps: no run goes on for ever, and where one ends the master has them. -/
theorem segmentedResponse_roundTrip (x : Exchange) (slave : CANCommunicatorSim6A)
    (response : List UInt8) (cmd padding data body : List UInt8) (hpaired : Paired x)
    (hack : HasAck x.master) (hrequest : Request cmd padding data)
    (hreply : x.requestDB cmd = UInt8.ofNat body.length :: body) (hmin : 1 ≤ body.length)
    (hmax : body.length ≤ 31) (hroom : body.length ≤ response.length)
    (hidle : slave.state = .idle) (hbuffer : slave.response.length = 32) :
    ∃ request, send x.master.calcHeader.addrSrc data = some request ∧
      (∀ run : Nat → System,
        run 0 = ⟨.waiting (CANCommunicator6A.start response),[],[request],[],slave⟩ →
        ¬∀ i, Step x (run i) (run (i + 1))) ∧
      ∀ sys, Relation.ReflTransGen (Step x)
          ⟨.waiting (CANCommunicator6A.start response),[],[request],[],slave⟩ sys →
        (∀ next, ¬Step x sys next) → Answered body sys := by
  refine ⟨_,send_of_le hrequest.fits,?_⟩
  suffices hends : Ends (Step x) (Answered body)
      ⟨.waiting (CANCommunicator6A.start response),[],
        [.ofData x.master.calcHeader.addrSrc data hrequest.fits],[],slave⟩ from
    ⟨fun run hstart => hends.not_infinite run hstart,
      fun sys hreach hstuck => hends.post_of_stuck hreach hstuck⟩
  let reply : List UInt8 := UInt8.ofNat body.length :: body
  have hlength : reply.length = body.length + 1 := List.length_cons
  have hpos : 1 ≤ reply.length := by omega
  have hle : reply.length ≤ 32 := by omega
  have hserved {answer : List UInt8} (hanswer : CANCommunicatorSim6A.formatResponse
      (reply ++ slave.response.drop reply.length) (UInt8.ofNat reply.length) 0 = some answer)
      (hfits : answer.length ≤ 8) :
      x.serve slave (.ofData x.master.calcHeader.addrSrc data hrequest.fits) =
        some ([.ofData x.master.calcHeader.addrDst answer hfits],if reply.length ≤ 7 then
          ⟨.idle,0,reply ++ slave.response.drop reply.length,UInt8.ofNat reply.length⟩
        else ⟨.extCmd,1,reply ++ slave.response.drop reply.length,UInt8.ofNat reply.length⟩) := by
    rw [serve_ofData hpaired]
    exact event_request hrequest hidle hbuffer hreply hpos hle hanswer hfits
  by_cases hshort : body.length ≤ 6
  · have hfits : reply.length ≤ 8 := by omega
    apply ends_of_served (hserved (formatResponse_short (by omega)) hfits)
    obtain ⟨last,hget,hlen,htake⟩ := @onIdle_short body (CANCommunicator6A.start response) x.master
      x.master.calcHeader.addrDst hshort hroom hfits
    exact ends_of_single rfl (copy_ofData hfits) hget (ends_of_returned ⟨last,rfl,hlen,htake⟩)
  · have hlong : 7 < reply.length := by omega
    have hlarge : ¬reply.length ≤ 7 := not_le.mpr hlong
    have hfirst : CANCommunicatorSim6A.formatResponse (reply ++ slave.response.drop reply.length)
        (UInt8.ofNat reply.length) 0 = some (segment reply 0) :=
      @formatResponse_long reply _ 0 hlong (by omega) (by omega)
    have hserve := hserved hfirst (segment_length_le reply 0)
    rw [if_neg hlarge] at hserve
    apply ends_of_served hserve
    obtain ⟨next,hget,hgathered⟩ := @onIdle_first body (CANCommunicator6A.start response) x.master
      x.master.calcHeader.addrDst _ (ackMessage_of_hasAck hack) (by omega) hmax hroom
    have hevent : CANCommunicator6A.onEvent x.master (CANCommunicator6A.start response)
        (.message (segmentMessage x.master.calcHeader.addrDst reply 0)) = _ := hget
    apply ends_of_single rfl (copy_ofData _) hevent
    obtain ⟨served,hevent⟩ := @event_ack reply x.requestDB x.master.calcHeader.addrSrc
      x.master.calcHeader.addrDst (slave.response.drop reply.length) (by decide) hlong (by omega)
    have hack : x.serve ⟨.extCmd,1,reply ++ slave.response.drop reply.length,
        UInt8.ofNat reply.length⟩
        (.ofData x.master.calcHeader.addrSrc [0x30,0x00,0x0A] (by decide)) =
        some ((List.range' 1 ((reply.length - 1) / 7)).map
          (segmentMessage x.master.calcHeader.addrDst reply),served) := by
      rw [serve_ofData hpaired]
      exact hevent
    apply ends_of_served hack
    exact ends_of_gathered hmax hgathered (by omega) (by omega) rfl

/-- A calculator with the acknowledge command and nothing else. -/
def ackCalculator : CANDiagCalculator :=
  ⟨true,true,⟨1,0,0x6A,500,0x772,0x77A,6,14,10⟩,[1,0,0,0,0,0,3,0x30,0x00,0x0A,0,0,0,0,0,0,0]⟩

/-- The master with this calculator, and the slave with its own data base. -/
def ackExchange : Exchange :=
  ⟨ackCalculator,⟨1,0,0x6A,500,0x77A,0x772,6,14,0⟩,CANCommunicatorSim6A.requestDB⟩

/-- The 26 bytes that answer `10 C0`. -/
theorem segmentedResponse_roundTrip_requestDB :
    ∃ request, send 0x77A [2,0x10,0xC0] = some request ∧
      (∀ run : Nat → System,
        run 0 = ⟨.waiting (CANCommunicator6A.start (List.replicate 64 0)),[],[request],[],
          ⟨.idle,0,List.replicate 32 0,0⟩⟩ →
        ¬∀ i, Step ackExchange (run i) (run (i + 1))) ∧
      ∀ sys, Relation.ReflTransGen (Step ackExchange)
          ⟨.waiting (CANCommunicator6A.start (List.replicate 64 0)),[],[request],[],
            ⟨.idle,0,List.replicate 32 0,0⟩⟩ sys →
        (∀ next, ¬Step ackExchange sys next) →
        Answered (CANCommunicatorSim6A.requestDB [0x10,0xC0]).tail sys := by
  have hrequest : Request [0x10,0xC0] [] [2,0x10,0xC0] :=
    ⟨rfl,by decide,by decide,by decide⟩
  exact segmentedResponse_roundTrip ackExchange ⟨.idle,0,List.replicate 32 0,0⟩
    (List.replicate 64 0) [0x10,0xC0] [] [2,0x10,0xC0]
    (CANCommunicatorSim6A.requestDB [0x10,0xC0]).tail ⟨rfl,rfl⟩
    ⟨⟨1,0,3,[0x30,0x00,0x0A,0,0,0,0,0,0,0]⟩,rfl,rfl,rfl⟩ hrequest (by decide) (by decide)
    (by decide) (by rw [List.length_replicate]; decide) rfl List.length_replicate

end Pyrn.Can
