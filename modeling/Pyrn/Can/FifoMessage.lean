import Pyrn.Can.Message
import Pyrn.Framework.Ring

/-!
# The message FIFO

`CANFifoMessage` is a ring of `FIFO_SIZE` slots in which one slot stays empty, so that equal
cursors mean an empty FIFO.
-/

namespace Pyrn.Can

def fifoSize : Nat := 25

structure CANFifoMessage where
  buffer : List CANMessage
  head : Nat
  tail : Nat
  deriving DecidableEq, Repr

namespace CANFifoMessage

def new : CANFifoMessage := ⟨List.replicate fifoSize .empty,0,0⟩

def available (st : CANFifoMessage) : Nat := (fifoSize + st.head - st.tail) % fifoSize

def free (st : CANFifoMessage) : Nat := fifoSize - 1 - st.available

/-- `none` is an access outside the buffer. -/
def put (st : CANFifoMessage) (data : CANMessage) : Option (Bool × CANFifoMessage) :=
  let next := (st.head + 1) % fifoSize
  if next = st.tail then some (false,st)
  else do
    let buffer ← Buffer.store st.buffer st.head [data]
    return (true,{ st with buffer := buffer, head := next })

/-- The message that is read, when the result is true. -/
def get (st : CANFifoMessage) : Option (Option CANMessage × CANFifoMessage) :=
  if st.head = st.tail then some (none,st)
  else do
    let data ← st.buffer[st.tail]?
    return (some data,{ st with tail := (st.tail + 1) % fifoSize })

/-- The pending messages are those met from `tail` on, oldest first. -/
structure Holds (st : CANFifoMessage) (pending : List CANMessage) : Prop where
  buffer_length : st.buffer.length = fifoSize
  pending_length : pending.length < fifoSize
  tail_lt : st.tail < fifoSize
  head_eq : st.head = (st.tail + pending.length) % fifoSize
  contents : Ring.window st.buffer st.tail pending.length = pending

theorem holds_new : Holds new [] where
  buffer_length := List.length_replicate
  pending_length := by decide
  tail_lt := by decide
  head_eq := rfl
  contents := rfl

variable {st : CANFifoMessage} {pending : List CANMessage}

theorem Holds.head_lt (hst : Holds st pending) : st.head < fifoSize := by
  rw [hst.head_eq]
  exact Nat.mod_lt _ (by decide)

theorem available_eq (hst : Holds st pending) : st.available = pending.length := by
  have htail := hst.tail_lt
  have hpending := hst.pending_length
  have hhead := hst.head_eq
  simp only [available,fifoSize] at *
  omega

theorem free_eq (hst : Holds st pending) : st.available + st.free = fifoSize - 1 := by
  have havailable := available_eq hst
  have hpending := hst.pending_length
  rw [free]
  omega

theorem put_refuses (hst : Holds st pending) (hfull : pending.length = fifoSize - 1)
    (data : CANMessage) : st.put data = some (false,st) := by
  have htail := hst.tail_lt
  have hhead := hst.head_eq
  rw [put,if_pos]
  simp only [fifoSize] at *
  omega

theorem put_accepts (hst : Holds st pending) (hroom : pending.length < fifoSize - 1)
    (data : CANMessage) :
    ∃ st', st.put data = some (true,st') ∧ Holds st' (pending ++ [data]) := by
  have hlength := hst.buffer_length
  have htail := hst.tail_lt
  have hhead := hst.head_eq
  have hhead_lt := hst.head_lt
  have hnext : ¬(st.head + 1) % fifoSize = st.tail := by
    simp only [fifoSize] at *
    omega
  have hposition : st.head % st.buffer.length = (st.tail + pending.length) % st.buffer.length := by
    rw [hlength,hhead,Nat.mod_mod]
  obtain ⟨buffer,hstore,hbuffer,hwindow⟩ := Ring.store_window st.buffer [data] st.tail
    pending.length st.head (by omega) (by rw [List.length_singleton]; omega) hposition
    (by rw [List.length_singleton]; omega)
  refine ⟨{ st with buffer := buffer, head := (st.head + 1) % fifoSize },?_,?_⟩
  · rw [put,if_neg hnext,hstore]
    rfl
  · constructor
    · exact hbuffer.trans hlength
    · rw [List.length_append,List.length_singleton]
      omega
    · exact htail
    · rw [List.length_append,List.length_singleton]
      simp only [fifoSize] at *
      omega
    · rw [List.length_append]
      change Ring.window buffer st.tail _ = _
      rw [hwindow,hst.contents]

theorem get_empty (hst : Holds st []) : st.get = some (none,st) := by
  have hhead := hst.head_eq
  rw [List.length_nil,Nat.add_zero,Nat.mod_eq_of_lt hst.tail_lt] at hhead
  rw [get,if_pos hhead]

theorem get_oldest {data : CANMessage} (hst : Holds st (data :: pending)) :
    ∃ st', st.get = some (some data,st') ∧ Holds st' pending := by
  have hlength := hst.buffer_length
  have hpending := hst.pending_length
  have htail := hst.tail_lt
  have hhead := hst.head_eq
  rw [List.length_cons] at hpending hhead
  have hne : ¬st.head = st.tail := by
    simp only [fifoSize] at *
    omega
  have hsplit : [data] ++ pending = Ring.window st.buffer st.tail 1 ++
      Ring.window st.buffer (st.tail + 1) pending.length := by
    rw [← Ring.window_add (by omega),Nat.add_comm 1,← List.length_cons (a := data),hst.contents]
    rfl
  have hone : 1 ≤ st.buffer.length := by omega
  obtain ⟨hfirst,hrest⟩ := List.append_inj hsplit (Ring.window_length hone).symm
  have hread : st.buffer[st.tail]? = some data := by
    rw [Ring.window_eq_take_drop (by omega)] at hfirst
    have helem := congrArg (fun cells => cells[0]?) hfirst
    simpa using helem.symm
  refine ⟨{ st with tail := (st.tail + 1) % fifoSize },?_,?_⟩
  · rw [get,if_neg hne,hread]
    rfl
  · constructor
    · exact hlength
    · omega
    · exact Nat.mod_lt _ (by decide)
    · simp only [fifoSize] at *
      omega
    · change Ring.window st.buffer ((st.tail + 1) % fifoSize) _ = _
      rw [← hlength,Ring.window_mod,← hrest]

end CANFifoMessage

end Pyrn.Can
