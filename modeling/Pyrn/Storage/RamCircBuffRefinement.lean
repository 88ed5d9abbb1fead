import Pyrn.Storage.RecordFifo

/-!
# Runs of the circular buffer

Every run of `Put`, `Get` and `Probe` from the constructor state answers as the abstract
queue does, and ends in a state that holds the abstract queue.
-/

namespace Pyrn.Storage

/-- A call with the memory behind its buffer argument. -/
inductive Call
  | put (buffer : List UInt8) (length : Nat)
  | get (buffer : List UInt8) (length : Nat)
  | probe
  deriving DecidableEq, Repr

/-- The returned `int` and the caller's buffer after the call. -/
structure Reply where
  ret : Int
  buffer : List UInt8
  deriving DecidableEq, Repr

def RamCircBuff.call (st : RamCircBuff) : Call → Option (Reply × RamCircBuff)
  | .put buffer length => do
      let (ret,next) ← st.put buffer length
      return (⟨ret,buffer⟩,next)
  | .get buffer length => do
      let (ret,filled,next) ← st.get buffer length
      return (⟨ret,filled⟩,next)
  | .probe => do
      let ret ← st.probe
      return (⟨ret,[]⟩,st)

/-- The abstract queue: a record is appended iff its bytes and its length word fit in what the
queued records leave free; records leave in the order they came. -/
def fifoCall (bSz : Nat) (queue : List Record) : Call → Reply × List Record
  | .put buffer length =>
      if 4 + length ≤ bSz - used queue then (⟨length,buffer⟩,queue ++ [buffer.take length])
      else (⟨-1,buffer⟩,queue)
  | .get buffer _ =>
      match queue with
      | [] => (⟨0,buffer⟩,[])
      | record :: rest => (⟨record.length,record ++ buffer.drop record.length⟩,rest)
  | .probe =>
      match queue with
      | [] => (⟨0,[]⟩,[])
      | record :: rest => (⟨record.length,[]⟩,record :: rest)

/-- What a caller owes: buffers as long as it says, room for the oldest record on `Get`, and a
record that lies beside the ring and its length word in the 32-bit address space on `Put`. -/
def Served (bSz : Nat) (queue : List Record) : Call → Prop
  | .put buffer length => length ≤ buffer.length ∧ bSz + 4 + length < 2 ^ 32
  | .get buffer length =>
      length ≤ buffer.length ∧ ∀ record ∈ queue.head?, record.length ≤ length
  | .probe => True

theorem call_refines {bSz : Nat} {st : RamCircBuff} {queue : List Record} (hsize : st.bSz = bSz)
    (hst : Holds st queue) (call : Call) (hserved : Served bSz queue call) :
    ∃ st', st.call call = some ((fifoCall bSz queue call).1,st') ∧ st'.bSz = bSz ∧
      Holds st' (fifoCall bSz queue call).2 := by
  have hbounds := holds_bounds hst
  cases call with
  | put buffer length =>
    by_cases hfits : 4 + length ≤ bSz - used queue
    · obtain ⟨st',hput,hsize',hst'⟩ := put_accepts hst hserved.1 (by omega)
      refine ⟨st',?_,by omega,?_⟩
      · simp [RamCircBuff.call,fifoCall,hput,hfits]
      · simpa [fifoCall,hfits] using hst'
    · have hspace : st.bSz + 4 + length < 2 ^ 32 := by
        have := hserved.2
        omega
      have hput : st.put buffer length = some (-1,st) := put_refuses hst hspace (by omega)
      refine ⟨st,?_,hsize,?_⟩
      · simp [RamCircBuff.call,fifoCall,hput,hfits]
      · simpa [fifoCall,hfits] using hst
  | get buffer length =>
    cases queue with
    | nil =>
      refine ⟨st,?_,hsize,hst⟩
      simp [RamCircBuff.call,fifoCall,get_empty hst]
    | cons record rest =>
      have hlength : record.length ≤ length := hserved.2 record (by simp)
      obtain ⟨st',hget,hsize',hst'⟩ := get_returns hst hlength (hlength.trans hserved.1)
      refine ⟨st',?_,by omega,hst'⟩
      simp [RamCircBuff.call,fifoCall,hget]
  | probe =>
    cases queue with
    | nil =>
      refine ⟨st,?_,hsize,hst⟩
      simp [RamCircBuff.call,fifoCall,probe_empty hst]
    | cons record rest =>
      refine ⟨st,?_,hsize,hst⟩
      simp [RamCircBuff.call,fifoCall,probe_cons hst]

/-- A run of served calls on a fresh ring replies as the abstract queue does; in the state it
reaches the cursors lie in the block, `currSz` is the total of the queued records, and a
refused `Put` changes nothing. -/
theorem ramCircBuff_refines_fifo (bSz : Nat) (hpos : 1 ≤ bSz) (hint : bSz < 2 ^ 31)
    (calls : List Call) (hserved : Transition.Admissible (fifoCall bSz) (Served bSz) [] calls) :
    ∃ st, Transition.run RamCircBuff.call (RamCircBuff.new bSz) calls =
        some ((Transition.runTotal (fifoCall bSz) [] calls).1,st) ∧
      let queue := (Transition.runTotal (fifoCall bSz) [] calls).2
      Holds st queue ∧ st.bSz = bSz ∧
      (0 ≤ st.pRead ∧ st.pRead < bSz) ∧ (0 ≤ st.pWrite ∧ st.pWrite < bSz) ∧
      st.currSz = ((queue.map fun record => 4 + record.length).sum : Nat) ∧
      ∀ buffer length, Served bSz queue (.put buffer length) →
        ¬4 + length ≤ bSz - used queue → st.put buffer length = some (-1,st) := by
  have hstart : (RamCircBuff.new bSz).bSz = bSz ∧ Holds (RamCircBuff.new bSz) [] :=
    ⟨rfl,holds_new hpos hint⟩
  obtain ⟨st,hrun,hsize,hst⟩ := Transition.run_refines
    (R := fun st queue => st.bSz = (bSz : Int) ∧ Holds st queue)
    (fun st queue call hrel hok => call_refines hrel.1 hrel.2 call hok) calls _ [] hstart hserved
  have hbounds := holds_bounds hst
  refine ⟨st,hrun,hst,hsize,by omega,by omega,hbounds.2.2.1,?_⟩
  intro buffer length hput hfull
  exact put_refuses hst (by have := hput.2; omega) (by omega)

/-- The wrap of a 12-byte ring: the second record is split behind its header. -/
theorem ramCircBuff_refines_fifo_twelve :
    ∃ st, Transition.run RamCircBuff.call (RamCircBuff.new 12)
        [.put [1,2,3] 3,.get [0,0,0,0] 4,.put [4,5,6,7] 4,.probe,.put [8] 1,.get [0,0,0,0] 4] =
        some ([⟨3,[1,2,3]⟩,⟨3,[1,2,3,0]⟩,⟨4,[4,5,6,7]⟩,⟨4,[]⟩,⟨-1,[8]⟩,⟨4,[4,5,6,7]⟩],st) ∧
      Holds st [] := by
  obtain ⟨st,hrun,hst,-⟩ := ramCircBuff_refines_fifo 12 (by decide) (by decide)
    [.put [1,2,3] 3,.get [0,0,0,0] 4,.put [4,5,6,7] 4,.probe,.put [8] 1,.get [0,0,0,0] 4]
    (by simp [Transition.Admissible,Served,fifoCall,used])
  exact ⟨st,hrun,hst⟩

end Pyrn.Storage
