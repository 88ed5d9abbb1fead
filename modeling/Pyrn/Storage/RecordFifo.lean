import Pyrn.Framework.Run
import Pyrn.Storage.RamCircBuff

/-!
# The circular buffer is a FIFO of byte records

The abstract queue is a list of records, each charged its bytes plus the four bytes of its
length. `Holds` lays such a queue out in the ring: the `used` bytes met from `pRead` on are
the length-prefixed records, oldest first, and `pWrite` stands right behind them.
-/

namespace Pyrn.Storage

abbrev Record := List UInt8

/-- Bytes taken by the queued records. -/
def used (queue : List Record) : Nat := (queue.map fun record => 4 + record.length).sum

/-- The stored form of a record. -/
def framed (record : Record) : List UInt8 := intBytes record.length ++ record

/-- The stored form of a queue. -/
def framedQueue (queue : List Record) : List UInt8 := queue.flatMap framed

@[simp] theorem intBytes_length (x : Int) : (intBytes x).length = 4 :=
  LittleEndian.toBytes_length _ _

@[simp] theorem used_nil : used [] = 0 := rfl

@[simp] theorem used_cons (record : Record) (queue : List Record) :
    used (record :: queue) = 4 + record.length + used queue := by simp [used]

@[simp] theorem used_concat (queue : List Record) (record : Record) :
    used (queue ++ [record]) = used queue + (4 + record.length) := by simp [used]

theorem framedQueue_cons (record : Record) (queue : List Record) :
    framedQueue (record :: queue) = intBytes record.length ++ (record ++ framedQueue queue) := by
  simp [framedQueue,framed]

theorem framedQueue_concat (queue : List Record) (record : Record) :
    framedQueue (queue ++ [record]) = framedQueue queue ++ intBytes record.length ++ record := by
  simp [framedQueue,framed]

/-- The four bytes of an `int` are enough to read it back. -/
theorem intOfBytes_intBytes_of_range {x : Int} (hlow : -2 ^ 31 ≤ x) (hhigh : x < 2 ^ 31) :
    intOfBytes (intBytes x) = x := by
  have hlt : (toUnsigned x).toNat < 256 ^ 4 := by
    unfold toUnsigned
    omega
  rw [intOfBytes,intBytes,LittleEndian.ofBytes_toBytes_of_lt hlt,LittleEndian.signed]
  unfold toUnsigned
  split <;> omega

theorem intOfBytes_intBytes {n : Nat} (h : n < 2 ^ 31) : intOfBytes (intBytes n) = n :=
  intOfBytes_intBytes_of_range (by omega) (by omega)

theorem rewind_eq_mod {size position : Nat} (hle : position ≤ size) :
    rewind size position = (position % size : Nat) := by
  unfold rewind
  split
  · rw [show position = size by omega,Nat.mod_self]
    rfl
  · rw [Nat.mod_eq_of_lt (by omega)]

/-- The ring over the cells `b` with `n` bytes in use. -/
def layout (b : List UInt8) (n w r : Nat) : RamCircBuff :=
  { b := b, bSz := b.length, currSz := n, pWrite := w, pRead := r }

/-- The ring `st` stores exactly the records of `queue`. -/
inductive Holds : RamCircBuff → List Record → Prop
  | intro (b : List UInt8) (r w : Nat) (queue : List Record) (hsize : b.length < 2 ^ 31)
      (hr : r < b.length) (hw : w < b.length) (hfit : used queue ≤ b.length)
      (hposition : w = (r + used queue) % b.length)
      (hcontents : Ring.window b r (used queue) = framedQueue queue) :
      Holds (layout b (used queue) w r) queue

theorem holds_new {bSz : Nat} (hpos : 1 ≤ bSz) (hint : bSz < 2 ^ 31) :
    Holds (RamCircBuff.new bSz) [] := by
  have h := Holds.intro (List.replicate bSz 0) 0 0 [] (by simpa) (by simp; omega) (by simp; omega)
    (by simp) (by simp) (by simp [framedQueue])
  simpa [RamCircBuff.new,layout] using h

/-- Either branch of the header write appends the four length bytes to the window. -/
private theorem putHeader_spec {b : List UInt8} {r w n : Nat} (length : Nat)
    (hsize : b.length < 2 ^ 31) (hr : r < b.length) (hw : w < b.length)
    (hmod : w % b.length = (r + n) % b.length) (hn : n + 4 ≤ b.length) :
    ∃ (b' : List UInt8) (w' : Nat),
      (layout b n w r).putHeader length = some (b',(w' : Int)) ∧ b'.length = b.length ∧
      w' ≤ b.length ∧ w' % b.length = (r + (n + 4)) % b.length ∧
      Ring.window b' r (n + 4) = Ring.window b r n ++ intBytes length := by
  have hnext := Ring.advance_mod (m := 4) hmod
  by_cases hfull : w + 4 ≤ b.length
  · obtain ⟨b',hstore,hlen,hwin⟩ := Ring.store_window b (intBytes length) r n w hr
      (by simpa using hn) hmod (by simpa using hfull)
    refine ⟨b',w + 4,?_,hlen,hfull,hnext,by simpa using hwin⟩
    rw [RamCircBuff.putHeader,layout,if_pos (by simp only [toUnsigned,sizeofInt]; omega),hstore]
    simp [sizeofInt]
  · obtain ⟨b₁,b',hstore₁,hstore₂,hlen,hwin⟩ := Ring.store_window_split b (intBytes length)
      r n w hr (by simpa using hn) hmod (by omega) (by simp; omega)
    refine ⟨b',w + 4 - b.length,?_,hlen,by omega,?_,by simpa using hwin⟩
    · have hlow : Buffer.load (intBytes length) 0 ((b.length : Int) - w) =
          some ((intBytes length).take (b.length - w)) :=
        Buffer.load_cast 0 (b.length - w) rfl (by omega) (by simp; omega)
      have hhigh : Buffer.load (intBytes length) ((b.length : Int) - w)
          (4 - ((b.length : Int) - w)) = some ((intBytes length).drop (b.length - w)) := by
        rw [Buffer.load_cast (b.length - w) (w + 4 - b.length) (by omega) (by omega)
          (by simp; omega),List.take_of_length_le (by simp; omega)]
      rw [RamCircBuff.putHeader,layout,if_neg (by simp only [toUnsigned,sizeofInt]; omega)]
      simp only [hlow,hhigh,hstore₁,hstore₂,Option.bind_eq_bind,Option.bind_some,sizeofInt,
        Option.pure_def,Option.some.injEq,Prod.mk.injEq,true_and]
      omega
    · rw [← hnext,Nat.mod_eq_sub_mod (a := w + 4) (by omega)]

/-- Either branch of the data write appends the data to the window. -/
private theorem putData_spec {b buffer : List UInt8} {r w n length : Nat}
    (hr : r < b.length) (hw : w ≤ b.length) (hmod : w % b.length = (r + n) % b.length)
    (hn : n + length ≤ b.length) (hlt : length < b.length)
    (hbuffer : length ≤ buffer.length) :
    ∃ (b' : List UInt8) (w' : Nat),
      RamCircBuff.putData b b.length w buffer length = some (b',(w' : Int)) ∧
      b'.length = b.length ∧ w' < b.length ∧ w' % b.length = (r + (n + length)) % b.length ∧
      Ring.window b' r (n + length) = Ring.window b r n ++ buffer.take length := by
  have hnext := Ring.advance_mod (m := length) hmod
  have hdata : (buffer.take length).length = length := by simpa using hbuffer
  by_cases hfull : w + length < b.length
  · obtain ⟨b',hstore,hlen,hwin⟩ := Ring.store_window b (buffer.take length) r n w hr
      (by omega) hmod (by omega)
    refine ⟨b',w + length,?_,hlen,hfull,hnext,by simpa only [hdata] using hwin⟩
    rw [RamCircBuff.putData,if_pos (by omega)]
    simp [Buffer.load_zero_of_le hbuffer,hstore]
  · obtain ⟨b₁,b',hstore₁,hstore₂,hlen,hwin⟩ := Ring.store_window_split b (buffer.take length)
      r n w hr (by omega) hmod hw (by omega)
    refine ⟨b',w + length - b.length,?_,hlen,by omega,?_,by simpa only [hdata] using hwin⟩
    · have hlow : Buffer.load buffer 0 ((b.length : Int) - w) =
          some (buffer.take (b.length - w)) :=
        Buffer.load_cast 0 (b.length - w) rfl (by omega) (by omega)
      have hhigh : Buffer.load buffer ((b.length : Int) - w) (length - ((b.length : Int) - w)) =
          some ((buffer.drop (b.length - w)).take (w + length - b.length)) :=
        Buffer.load_cast (b.length - w) (w + length - b.length) (by omega) (by omega) (by omega)
      rw [List.take_take,Nat.min_eq_left (by omega)] at hstore₁
      rw [List.drop_take,show length - (b.length - w) = w + length - b.length by omega] at hstore₂
      rw [RamCircBuff.putData,if_neg (by omega)]
      simp only [hlow,hhigh,hstore₁,hstore₂,Option.bind_eq_bind,Option.bind_some,
        Option.pure_def,Option.some.injEq,Prod.mk.injEq,true_and]
      omega
    · rw [← hnext,Nat.mod_eq_sub_mod (a := w + length) (by omega)]

/-- An accepted `Put` appends header and data to the window, wherever they are split. -/
private theorem put_cells {b buffer : List UInt8} {r w n length : Nat}
    (hsize : b.length < 2 ^ 31) (hr : r < b.length) (hw : w < b.length)
    (hmod : w % b.length = (r + n) % b.length) (hn : n + (4 + length) ≤ b.length)
    (hbuffer : length ≤ buffer.length) :
    ∃ (b' : List UInt8) (w' : Nat),
      (layout b n w r).put buffer length =
        some ((length : Int),layout b' (n + (4 + length)) w' r) ∧
      b'.length = b.length ∧ w' < b.length ∧ w' = (r + (n + (4 + length))) % b.length ∧
      Ring.window b' r (n + (4 + length)) =
        Ring.window b r n ++ intBytes length ++ buffer.take length := by
  have hdata : (buffer.take length).length = length := by simpa using hbuffer
  have hguard : toUnsigned ((n : Int) + sizeofInt + length) ≤ toUnsigned b.length := by
    simp only [toUnsigned,sizeofInt]; omega
  by_cases hwhole : w + (4 + length) ≤ b.length
  · obtain ⟨b₁,hstore₁,hlen₁,hwin₁⟩ := Ring.store_window b (intBytes length) r n w hr
      (by simp; omega) hmod (by simp; omega)
    obtain ⟨b₂,hstore₂,hlen₂,hwin₂⟩ := Ring.store_window b₁ (buffer.take length) r (n + 4)
      (w + 4) (by omega) (by omega)
      (by rw [hlen₁]; exact Ring.advance_mod hmod) (by omega)
    have hnext := Ring.advance_mod (m := 4 + length) hmod
    rw [hdata,show n + 4 + length = n + (4 + length) by omega] at hwin₂
    rw [intBytes_length] at hwin₁
    rw [hwin₁] at hwin₂
    have hput : (layout b n w r).put buffer length = some ((length : Int),
        layout b₂ (n + (4 + length)) ((w + (4 + length)) % b.length) r) := by
      rw [RamCircBuff.put,layout,if_pos hguard,if_pos (by simp only [toUnsigned,sizeofInt]; omega)]
      push_cast at hstore₂
      have hrewind := rewind_eq_mod hwhole
      push_cast at hrewind
      simp only [hstore₁,sizeofInt,hstore₂,Buffer.load_zero_of_le hbuffer,Option.bind_eq_bind,
        Option.bind_some,Option.pure_def,layout,Nat.cast_add,Nat.cast_ofNat,hlen₂,hlen₁,hrewind]
      rfl
    exact ⟨b₂,_,hput,by omega,Nat.mod_lt _ (by omega),hnext,hwin₂⟩
  · obtain ⟨b₁,w₁,hput₁,hlen₁,hw₁,hmod₁,hwin₁⟩ := putHeader_spec length
      hsize hr hw hmod (by omega)
    obtain ⟨b₂,w₂,hput₂,hlen₂,hw₂,hmod₂,hwin₂⟩ := putData_spec (b := b₁) (r := r) (w := w₁)
      (n := n + 4) (by omega) (by omega) (by rw [hlen₁,hmod₁]) (by omega) (by omega) hbuffer
    rw [show n + 4 + length = n + (4 + length) by omega] at hmod₂ hwin₂
    rw [hwin₁] at hwin₂
    refine ⟨b₂,w₂,?_,by omega,by omega,?_,hwin₂⟩
    · rw [RamCircBuff.put,layout,if_pos hguard,if_neg (by simp only [toUnsigned,sizeofInt]; omega)]
      rw [hlen₁] at hput₂
      rw [layout] at hput₁
      simp only [hput₁,hput₂,Option.bind_eq_bind,Option.bind_some,Option.pure_def,sizeofInt,layout]
      simp only [Option.some.injEq,Prod.mk.injEq,RamCircBuff.mk.injEq,true_and,and_true]
      omega
    · rw [hlen₁,Nat.mod_eq_of_lt (by omega)] at hmod₂
      exact hmod₂

/-- A record that fits is appended to the queue. -/
theorem put_accepts {st : RamCircBuff} {queue : List Record} (hst : Holds st queue)
    {buffer : List UInt8} {length : Nat} (hbuffer : length ≤ buffer.length)
    (hfits : (4 + length : Int) ≤ st.bSz - used queue) :
    ∃ st', st.put buffer length = some ((length : Int),st') ∧ st'.bSz = st.bSz ∧
      Holds st' (queue ++ [buffer.take length]) := by
  obtain ⟨b,r,w,queue,hsize,hr,hw,hfit,hposition,hcontents⟩ := hst
  simp only [layout] at hfits
  have hdata : (buffer.take length).length = length := by simpa using hbuffer
  have hused : used (queue ++ [buffer.take length]) = used queue + (4 + length) := by
    rw [used_concat,hdata]
  obtain ⟨b',w',hput,hlen,hw',hposition',hwin⟩ := put_cells hsize hr hw
    (by rw [hposition,Nat.mod_mod]) (by omega) hbuffer
  refine ⟨_,hput,by simp only [layout,hlen],?_⟩
  rw [← hused]
  refine Holds.intro b' r w' _ (by omega) (by omega) (by omega) (by omega)
    (by rw [hused,hlen,hposition']) ?_
  rw [hused,hwin,hcontents,framedQueue_concat,hdata]

/-- A record that does not fit is refused and leaves the ring as it is. The sum in the guard
does not wrap, because the ring and the record lie side by side in the address space. -/
theorem put_refuses {st : RamCircBuff} {queue : List Record} (hst : Holds st queue)
    {buffer : List UInt8} {length : Nat} (hspace : st.bSz + 4 + length < 2 ^ 32)
    (hfull : ¬(4 + length : Int) ≤ st.bSz - used queue) :
    st.put buffer length = some (-1,st) := by
  obtain ⟨b,r,w,queue,hsize,hr,hw,hfit,hposition,hcontents⟩ := hst
  simp only [layout] at hfull hspace
  rw [RamCircBuff.put,layout,if_neg (by simp only [toUnsigned,sizeofInt]; omega)]
  rfl

/-- The oldest record, cut out of the window: its header, its data and the records behind. -/
private theorem window_cons {b : List UInt8} {r : Nat} {record : Record} {rest : List Record}
    (hfit : used (record :: rest) ≤ b.length)
    (hcontents : Ring.window b r (used (record :: rest)) = framedQueue (record :: rest)) :
    Ring.window b r 4 = intBytes record.length ∧
      Ring.window b (r + 4) record.length = record ∧
      Ring.window b (r + 4 + record.length) (used rest) = framedQueue rest := by
  rw [used_cons,Nat.add_assoc] at hfit hcontents
  rw [framedQueue_cons,Ring.window_add hfit,Ring.window_add (by omega)] at hcontents
  have houter := List.append_inj hcontents (by rw [Ring.window_length (by omega),intBytes_length])
  have hinner := List.append_inj houter.2 (by rw [Ring.window_length (by omega)])
  exact ⟨houter.1,hinner.1,hinner.2⟩

/-- A header is read back from either layout, by `Get` and by `Probe` alike. -/
private theorem header_bytes {b : List UInt8} {r : Nat} (hr : r < b.length) (hn : 4 ≤ b.length) :
    (r + 4 ≤ b.length → Buffer.load b r 4 = some (Ring.window b r 4)) ∧
      (¬r + 4 ≤ b.length → ∃ low high, Buffer.load b r ((b.length : Int) - r) = some low ∧
        Buffer.load b 0 (4 - ((b.length : Int) - r)) = some high ∧
        low ++ high = Ring.window b r 4) := by
  constructor
  · intro hfull
    rw [Ring.window_eq_take_drop hfull]
    exact Buffer.load_cast r 4 rfl rfl hfull
  · intro hsplit
    refine ⟨_,_,Buffer.load_cast r (b.length - r) rfl (by omega) (by omega),
      Buffer.load_cast 0 (r + 4 - b.length) rfl (by omega) (by omega),?_⟩
    rw [Ring.window_eq_wrapped hr.le hn (by omega),List.take_of_length_le (by simp),List.drop_zero]

private theorem getHeader_spec {b : List UInt8} {r w n : Nat} (hsize : b.length < 2 ^ 31)
    (hr : r < b.length) (hn : 4 ≤ b.length) :
    (layout b n w r).getHeader =
      some (intOfBytes (Ring.window b r 4),(((r + 4) % b.length : Nat) : Int)) := by
  have hheader := header_bytes hr hn
  by_cases hfull : r + 4 ≤ b.length
  · have hrewind := rewind_eq_mod hfull
    push_cast at hrewind
    rw [RamCircBuff.getHeader,layout,if_pos (by simp only [toUnsigned,sizeofInt]; omega)]
    simp only [sizeofInt,hheader.1 hfull,Option.bind_eq_bind,Option.bind_some,Option.pure_def,
      hrewind]
    rfl
  · obtain ⟨low,high,hlow,hhigh,hjoin⟩ := hheader.2 hfull
    have hnext : (4 : Int) - ((b.length : Int) - r) = ((r + 4) % b.length : Nat) := by
      rw [Ring.mod_add_eq_ite (by omega),if_neg (by omega)]
      omega
    rw [RamCircBuff.getHeader,layout,if_neg (by simp only [toUnsigned,sizeofInt]; omega)]
    simp only [sizeofInt,hlow,hhigh,hjoin,Option.bind_eq_bind,Option.bind_some,Option.pure_def,
      ← hnext]

/-- Either branch of the data read copies the record into the caller's buffer, all of it whatever
length the caller gives. Only the branch without a split moves `pRead` on by the given length. -/
private theorem get_copies {b buffer : List UInt8} {r w n : Nat} {record : Record}
    (hsize : b.length < 2 ^ 31) (hr : r < b.length) (hn : 4 + record.length ≤ b.length)
    (hpos : n ≠ 0) (hheader : Ring.window b r 4 = intBytes record.length)
    (hdata : Ring.window b (r + 4) record.length = record) (hbuffer : record.length ≤ buffer.length)
    (length : Int) :
    let p := (r + 4) % b.length
    let assertedLength := if (record.length : Int) ≤ length then (record.length : Int) else length
    (layout b n w r).get buffer length =
      some (assertedLength,record ++ buffer.drop record.length,{ layout b n w r with
        currSz := n - 4 - assertedLength
        pRead := if p + record.length ≤ b.length then rewind b.length (p + assertedLength)
          else (p + record.length - b.length : Nat) }) := by
  have hs : intOfBytes (Ring.window b r 4) = record.length := by
    rw [hheader,intOfBytes_intBytes (by omega)]
  have hp : (r + 4) % b.length < b.length := Nat.mod_lt _ (by omega)
  have hstart := getHeader_spec (w := w) (n := n) hsize hr (by omega)
  rw [hs] at hstart
  rw [← Ring.window_mod] at hdata
  have hcurrent : (layout b n w r).currSz ≠ 0 := by
    simp only [layout]
    omega
  rw [RamCircBuff.get,if_pos hcurrent,hstart]
  generalize (r + 4) % b.length = p at hp hdata
  simp only [Option.bind_eq_bind,Option.bind_some,layout,sizeofInt]
  by_cases hwhole : p + record.length ≤ b.length
  · have hload := Buffer.load_of_le hwhole
    rw [← Ring.window_eq_take_drop hwhole,hdata] at hload
    have hguard : (p : Int) + record.length ≤ b.length := by omega
    rw [if_pos hguard]
    simp only [hload,Buffer.store_zero_of_le hbuffer,Option.bind_some,Option.pure_def,if_pos hwhole]
  · have hlow : Buffer.load b p ((b.length : Int) - p) = some (b.drop p) := by
      rw [Buffer.load_cast p (b.length - p) rfl (by omega) (by omega),
        List.take_of_length_le (by simp)]
    have hhigh : Buffer.load b 0 (record.length - ((b.length : Int) - p)) =
        some (b.take (p + record.length - b.length)) :=
      Buffer.load_cast 0 (p + record.length - b.length) rfl (by omega) (by omega)
    have hjoin : record = b.drop p ++ b.take (p + record.length - b.length) := by
      conv_lhs => rw [← hdata]
      exact Ring.window_eq_wrapped hp.le (by omega) (by omega)
    have hstore : Buffer.store buffer 0 (b.drop p) =
        some (b.drop p ++ buffer.drop (b.drop p).length) :=
      Buffer.store_zero_of_le (by simp; omega)
    have hbehind : Buffer.store (b.drop p ++ buffer.drop (b.drop p).length) (b.drop p).length
        (b.take (p + record.length - b.length)) =
          some (b.drop p ++ b.take (p + record.length - b.length) ++ buffer.drop
            (b.drop p ++ b.take (p + record.length - b.length)).length) :=
      Buffer.store_behind (by rw [← hjoin]; exact hbuffer)
    rw [← hjoin,List.length_drop,Nat.cast_sub hp.le] at hbehind
    rw [List.length_drop] at hstore
    have hguard : ¬(p : Int) + record.length ≤ b.length := by omega
    rw [if_neg hguard]
    simp only [hlow,hhigh,hstore,hbehind,Option.bind_some,Option.pure_def,if_neg hwhole]
    simp only [Option.some.injEq,Prod.mk.injEq,RamCircBuff.mk.injEq,true_and]
    omega

/-- With room for the record the cursor ends up behind it in either branch. -/
private theorem get_cells {b buffer : List UInt8} {r w n length : Nat} {record : Record}
    (hsize : b.length < 2 ^ 31) (hr : r < b.length) (hn : 4 + record.length ≤ n)
    (hfit : n ≤ b.length) (hheader : Ring.window b r 4 = intBytes record.length)
    (hdata : Ring.window b (r + 4) record.length = record)
    (hlength : record.length ≤ length) (hbuffer : record.length ≤ buffer.length) :
    (layout b n w r).get buffer length =
      some ((record.length : Int),record ++ buffer.drop record.length,
        layout b (n - (4 + record.length)) w ((r + 4 + record.length) % b.length)) := by
  have hp : (r + 4) % b.length < b.length := Nat.mod_lt _ (by omega)
  have hnext : (r + 4 + record.length) % b.length =
      ((r + 4) % b.length + record.length) % b.length := by rw [Nat.mod_add_mod]
  have hcurrent : (n : Int) - 4 - record.length = (n - (4 + record.length) : Nat) := by omega
  rw [get_copies hsize hr (by omega) (by omega) hheader hdata hbuffer,if_pos (by omega),hnext]
  generalize (r + 4) % b.length = p at hp
  simp only [layout,hcurrent,Option.some.injEq,Prod.mk.injEq,RamCircBuff.mk.injEq,true_and]
  by_cases hwhole : p + record.length ≤ b.length
  · have hrewind := rewind_eq_mod hwhole
    push_cast at hrewind
    rw [if_pos hwhole,hrewind]
    rfl
  · rw [if_neg hwhole,Ring.mod_add_eq_ite (by omega),if_neg (by omega)]

/-- `Get` with room for the oldest record returns and removes exactly that record. -/
theorem get_returns {st : RamCircBuff} {record : Record} {rest : List Record}
    (hst : Holds st (record :: rest)) {buffer : List UInt8} {length : Nat}
    (hlength : record.length ≤ length) (hbuffer : record.length ≤ buffer.length) :
    ∃ st', st.get buffer length =
        some ((record.length : Int),record ++ buffer.drop record.length,st') ∧
      st'.bSz = st.bSz ∧ Holds st' rest := by
  generalize hqueue : record :: rest = queue at hst
  obtain ⟨b,r,w,_,hsize,hr,hw,hfit,hposition,hcontents⟩ := hst
  subst hqueue
  obtain ⟨hheader,hdata,hrest⟩ := window_cons hfit hcontents
  rw [used_cons] at hfit hposition
  refine ⟨_,get_cells hsize hr (by rw [used_cons]; omega) (by rw [used_cons]; omega) hheader hdata
    hlength hbuffer,rfl,?_⟩
  rw [used_cons,Nat.add_sub_cancel_left]
  refine Holds.intro b _ w rest hsize (Nat.mod_lt _ (by omega)) hw (by omega) ?_ ?_
  · rw [Nat.mod_add_mod,hposition]
    congr 1
    omega
  · rw [Ring.window_mod,hrest]

/-- `Get` with less room returns the given length, but copies the whole record and takes only the
given length off the bytes in use. -/
theorem get_short {st : RamCircBuff} {record : Record} {rest : List Record}
    (hst : Holds st (record :: rest)) {buffer : List UInt8} {length : Int}
    (hshort : length < record.length) (hbuffer : record.length ≤ buffer.length) :
    ∃ st', st.get buffer length = some (length,record ++ buffer.drop record.length,st') ∧
      st'.currSz = used rest + (record.length - length) := by
  generalize hqueue : record :: rest = queue at hst
  obtain ⟨b,r,w,_,hsize,hr,hw,hfit,hposition,hcontents⟩ := hst
  subst hqueue
  obtain ⟨hheader,hdata,-⟩ := window_cons hfit hcontents
  have hused := used_cons record rest
  have hget := get_copies (w := w) (n := used (record :: rest)) hsize hr (by omega) (by omega)
    hheader hdata hbuffer length
  simp only [if_neg (Int.not_le.mpr hshort)] at hget
  refine ⟨_,hget,?_⟩
  simp only
  omega

theorem get_empty {st : RamCircBuff} (hst : Holds st []) (buffer : List UInt8) (length : Int) :
    st.get buffer length = some (0,buffer,st) := by
  cases hst
  rw [RamCircBuff.get,if_neg (by simp [layout])]
  rfl

/-- `Probe` sees the size of the oldest record. -/
theorem probe_cons {st : RamCircBuff} {record : Record} {rest : List Record}
    (hst : Holds st (record :: rest)) : st.probe = some (record.length : Int) := by
  generalize hqueue : record :: rest = queue at hst
  obtain ⟨b,r,w,_,hsize,hr,hw,hfit,hposition,hcontents⟩ := hst
  subst hqueue
  have hheader := (window_cons hfit hcontents).1
  rw [used_cons] at hfit
  have hbytes := header_bytes hr (by omega)
  have hs : intOfBytes (Ring.window b r 4) = record.length := by
    rw [hheader,intOfBytes_intBytes (by omega)]
  rw [RamCircBuff.probe,if_pos (by simp only [layout,used_cons]; omega)]
  by_cases hfull : r + 4 ≤ b.length
  · rw [layout,if_pos (by simp only [toUnsigned,sizeofInt]; omega)]
    simp only [sizeofInt,hbytes.1 hfull,Option.bind_eq_bind,Option.bind_some,Option.pure_def,hs]
  · obtain ⟨low,high,hlow,hhigh,hjoin⟩ := hbytes.2 hfull
    rw [layout,if_neg (by simp only [toUnsigned,sizeofInt]; omega)]
    simp only [sizeofInt,hlow,hhigh,hjoin,Option.bind_eq_bind,Option.bind_some,Option.pure_def,hs]

theorem probe_empty {st : RamCircBuff} (hst : Holds st []) : st.probe = some 0 := by
  cases hst
  rfl

/-- The cursors and the byte count that `Holds` promises. -/
theorem holds_bounds {st : RamCircBuff} {queue : List Record} (hst : Holds st queue) :
    (0 ≤ st.pRead ∧ st.pRead < st.bSz) ∧ (0 ≤ st.pWrite ∧ st.pWrite < st.bSz) ∧
      st.currSz = used queue ∧ (used queue : Int) ≤ st.bSz ∧ st.bSz < 2 ^ 31 := by
  obtain ⟨b,r,w,queue,hsize,hr,hw,hfit,hposition,hcontents⟩ := hst
  refine ⟨⟨?_,?_⟩,⟨?_,?_⟩,rfl,?_,?_⟩ <;> simp only [layout] <;> omega

end Pyrn.Storage
