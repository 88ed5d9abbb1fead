import Pyrn.Framework.Ring

/-!
# The circular buffer of the serial streams

`MtxCircBuffer`, each of its methods behind its mutex: a queue that one cell keeps from filling the
array.
-/

namespace Pyrn.Modem

structure MtxCircBuffer (α : Type*) (size : Nat) where
  write : Nat
  read : Nat
  buf : List α
  write_lt : write < size
  read_lt : read < size
  buf_length : buf.length = size
  deriving DecidableEq

namespace MtxCircBuffer

variable {α : Type*} {size : Nat} {b b' : MtxCircBuffer α size}

/-- Behind the constructor. -/
def empty (buf : List α) (hsize : 0 < size) (hbuf : buf.length = size) : MtxCircBuffer α size :=
  ⟨0,0,buf,hsize,hsize,hbuf⟩

def isFull (b : MtxCircBuffer α size) : Bool := (b.write + 1) % size = b.read

def isEmpty (b : MtxCircBuffer α size) : Bool := b.read = b.write

def available (b : MtxCircBuffer α size) : Nat :=
  if b.read ≤ b.write then b.write - b.read else size - b.read + b.write

theorem mod_lt (b : MtxCircBuffer α size) (n : Nat) : n % size < size :=
  Nat.mod_lt n (Nat.lt_of_le_of_lt (Nat.zero_le b.read) b.read_lt)

theorem read_lt_length (b : MtxCircBuffer α size) : b.read < b.buf.length := by
  rw [b.buf_length]
  exact b.read_lt

/-- `queue`; it is `none` where the caller waits for a free cell. -/
def queue (b : MtxCircBuffer α size) (k : α) : Option (MtxCircBuffer α size) :=
  if b.isFull then none
  else some { b with
    buf := b.buf.set b.write k
    write := (b.write + 1) % size
    write_lt := b.mod_lt _
    buf_length := (List.length_set ..).trans b.buf_length }

/-- `dequeue`; it is `none` where there is nothing to take. -/
def dequeue (b : MtxCircBuffer α size) : Option (α × MtxCircBuffer α size) :=
  if b.isEmpty then none
  else some (b.buf.get ⟨b.read,b.read_lt_length⟩,
    { b with read := (b.read + 1) % size,read_lt := b.mod_lt _ })

/-- What is in the buffer, the oldest first. -/
def contents (b : MtxCircBuffer α size) : List α := Ring.window b.buf b.read b.available

theorem available_lt (b : MtxCircBuffer α size) : b.available < size := by
  have hread := b.read_lt
  have hwrite := b.write_lt
  unfold available
  split_ifs <;> omega

theorem available_lt_length (b : MtxCircBuffer α size) : b.available < b.buf.length := by
  rw [b.buf_length]
  exact b.available_lt

@[simp] theorem length_contents (b : MtxCircBuffer α size) : b.contents.length = b.available :=
  Ring.window_length (Nat.le_of_lt b.available_lt_length)

@[simp] theorem contents_empty (buf : List α) (hsize : 0 < size) (hbuf : buf.length = size) :
    (empty buf hsize hbuf).contents = [] := rfl

/-- The position behind the contents is the one that is written next. -/
theorem read_add_available (b : MtxCircBuffer α size) :
    (b.read + b.available) % size = b.write := by
  have hread := b.read_lt
  have hwrite := b.write_lt
  unfold available
  split_ifs with hle
  · rw [Nat.add_sub_cancel' hle,Nat.mod_eq_of_lt hwrite]
  · rw [show b.read + (size - b.read + b.write) = b.write + size by omega,Nat.add_mod_right,
      Nat.mod_eq_of_lt hwrite]

/-- The count of a window is determined by where it ends. -/
theorem available_eq_of_mod {n : Nat} (hn : n < size) (h : (b.read + n) % size = b.write) :
    b.available = n := by
  have hread := b.read_lt
  have hwrite := b.write_lt
  rw [Ring.mod_add_eq_ite (by omega)] at h
  unfold available
  split_ifs at h ⊢ <;> omega

theorem isEmpty_iff : b.isEmpty = true ↔ b.contents = [] := by
  rw [← List.length_eq_zero_iff,length_contents,isEmpty,decide_eq_true_iff]
  have hread := b.read_lt
  unfold available
  split_ifs <;> omega

theorem isFull_iff : b.isFull = true ↔ b.contents.length + 1 = size := by
  have hread := b.read_lt
  have hwrite := b.write_lt
  rw [length_contents,isFull,decide_eq_true_iff,Ring.mod_add_eq_ite (by omega)]
  unfold available
  split_ifs <;> omega

theorem queue_eq_none_iff {k : α} : b.queue k = none ↔ b.contents.length + 1 = size := by
  rw [← isFull_iff,queue]
  split_ifs with hfull <;> simp [hfull]

theorem contents_queue {k : α} (h : b.queue k = some b') : b'.contents = b.contents ++ [k] := by
  unfold queue at h
  split_ifs at h with hfull
  cases h
  have hroom : b.available + 1 < size := by
    have hlt := b.available_lt
    have hne := mt isFull_iff.mpr hfull
    rw [length_contents] at hne
    omega
  have hend := b.read_add_available
  have hnext : (b.write + 1) % size = (b.read + (b.available + 1)) % size :=
    Ring.advance_mod (by rw [hend,Nat.mod_eq_of_lt b.write_lt])
  have hset := Ring.set_window b.buf k b.read_lt_length b.available_lt_length
  rw [b.buf_length,hend] at hset
  rw [contents,available_eq_of_mod (n := b.available + 1) hroom hnext.symm]
  exact hset

theorem dequeue_eq_none_iff : b.dequeue = none ↔ b.contents = [] := by
  rw [← isEmpty_iff,dequeue]
  split_ifs with hempty <;> simp [hempty]

theorem contents_dequeue {c : α} (h : b.dequeue = some (c,b')) :
    b.contents = c :: b'.contents := by
  unfold dequeue at h
  split_ifs at h with hempty
  cases h
  have hsome : b.contents ≠ [] := mt isEmpty_iff.mpr hempty
  have hpos : 0 < b.available := by
    rw [← length_contents]
    exact List.length_pos_of_ne_nil hsome
  obtain ⟨n,hn⟩ := Nat.exists_eq_add_of_lt hpos
  rw [Nat.zero_add] at hn
  have hlt := b.available_lt
  have hend := b.read_add_available
  have hnext : ((b.read + 1) % size + n) % size = b.write := by
    rw [Nat.mod_add_mod,Nat.add_assoc,Nat.add_comm 1 n,← hn,hend]
  have hbehind := b.available_lt_length
  have hcount := available_eq_of_mod
    (b := { b with read := (b.read + 1) % size,read_lt := b.mod_lt _ }) (by omega) hnext
  rw [contents,contents,hcount,hn,Ring.window_cons b.read_lt_length (by omega)]
  simp only [List.get_eq_getElem,← Ring.window_mod b.buf (b.read + 1),b.buf_length]

end MtxCircBuffer

end Pyrn.Modem
