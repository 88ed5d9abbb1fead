import Pyrn.Storage.RecordFifo
import Pyrn.Upload.ComHandler

/-!
# Storing a received configuration

`MainClass::event` takes a reply of the server apart: 40 bytes that identify the configuration,
and the configuration itself, whose size goes to sector 0 and whose bytes go to sector 1 of the
storage. Sizes are not checked on the way.
-/

namespace Pyrn.Device

open Pyrn.Storage Pyrn.Upload

/-- `ramStorage`: its block of memory, and the number that stands for sector 0. -/
structure RamStorage where
  b : List UInt8
  sz : Int
  deriving DecidableEq, Repr

namespace RamStorage

/-- The constructor leaves `sz` as it finds it. -/
def new (bSz : Nat) (sz : Int) : RamStorage := ⟨List.replicate bSz 0,sz⟩

/-- The value of `Read` and the bytes that it copies; `none` is a copy from outside the block. -/
def read (st : RamStorage) (index length : Int) : Option (Int × List UInt8) :=
  if index = 0 then some (sizeofInt,intBytes st.sz)
  else if index = 1 then do
    let bytes ← Buffer.load st.b 0 length
    return (length,bytes)
  else some (-1,[])

/-- `none` is a copy from outside the buffer or to outside the block. -/
def write (st : RamStorage) (buffer : List UInt8) (index length : Int) :
    Option (Int × RamStorage) :=
  if index = 0 then do
    let bytes ← Buffer.load buffer 0 sizeofInt
    return (sizeofInt,{ st with sz := intOfBytes bytes })
  else if index = 1 then do
    let bytes ← Buffer.load buffer 0 length
    let b ← Buffer.store st.b 0 bytes
    return (length,{ st with b := b })
  else some (-1,st)

end RamStorage

/-- The size of `calcStorage`. -/
def calcStorageSz : Nat := 512

/-- What `event` changes: the identifier in the header of the communication handler, the storage
and the flag. -/
structure MainState where
  idCfg : List UInt8
  calcStorage : RamStorage
  newCalcPending : Bool
  deriving DecidableEq, Repr

/-- The state behind a call of `event`, and how many bytes of `data` it has read. -/
structure Handled where
  state : MainState
  read : Nat
  deriving DecidableEq, Repr

/-- `MainClass::event`; `none` is a copy outside a buffer. -/
def event (st : MainState) (ID : Int) (data : List UInt8) : Option Handled := do
  let dataSz := ID - 40
  let id ← Buffer.load data 0 40
  let st := { st with idCfg := id }
  if dataSz ≠ 0 then
    let (err,calcStorage) ← st.calcStorage.write (intBytes dataSz) 0 sizeofInt
    let st := { st with calcStorage := calcStorage }
    if err = -1 then return ⟨st,40⟩
    let (err,calcStorage) ← st.calcStorage.write (data.drop 40) 1 dataSz
    let st := { st with calcStorage := calcStorage }
    if err = -1 then return ⟨st,40 + dataSz.toNat⟩
    return ⟨{ st with newCalcPending := true },40 + dataSz.toNat⟩
  return ⟨st,40⟩

/-- The configuration in a reply of so many bytes. -/
def configurationOf (ID : Int) (data : List UInt8) : List UInt8 :=
  (data.drop 40).take (ID - 40).toNat

/-- What handling a reply has to do: a configuration is stored as it was received, a reply without
one changes neither the storage nor the flag, and nothing behind the reply is read. -/
structure KeepsConfiguration (st : MainState) (ID : Int) (data : List UInt8) (handled : Handled) :
    Prop where
  inside : handled.read ≤ ID
  size : 40 < ID → (handled.state.calcStorage.read 0 sizeofInt).map (fun result =>
    intOfBytes result.2) = some (ID - 40)
  bytes : 40 < ID → handled.state.calcStorage.read 1 (ID - 40) =
    some (ID - 40,configurationOf ID data)
  pending : 40 < ID → handled.state.newCalcPending = true
  unchanged : ID ≤ 40 → handled.state.calcStorage = st.calcStorage ∧
    handled.state.newCalcPending = st.newCalcPending

section

variable {st : RamStorage} {buffer : List UInt8} {n : Nat}

theorem RamStorage.write_size {x : Int} (hlow : -2 ^ 31 ≤ x) (hhigh : x < 2 ^ 31) :
    st.write (intBytes x) 0 sizeofInt = some (sizeofInt,{ st with sz := x }) := by
  have hload : Buffer.load (intBytes x) 0 sizeofInt = some (intBytes x) := by
    have hsome : Buffer.load (intBytes x) 0 ((4 : Nat) : Int) = some ((intBytes x).take 4) :=
      Buffer.load_zero_of_le (by rw [intBytes_length])
    rwa [List.take_of_length_le (by rw [intBytes_length])] at hsome
  rw [RamStorage.write,if_pos rfl,hload]
  simp only [Option.bind_eq_bind,Option.bind_some,intOfBytes_intBytes_of_range hlow hhigh]
  rfl

theorem RamStorage.write_data (hbuffer : n ≤ buffer.length) (hroom : n ≤ st.b.length) :
    st.write buffer 1 n = some ((n : Int),{ st with b := buffer.take n ++ st.b.drop n }) := by
  have hlen : (buffer.take n).length = n := List.length_take_of_le hbuffer
  rw [RamStorage.write,if_neg (by decide),if_pos rfl,Buffer.load_zero_of_le hbuffer]
  simp only [Option.bind_eq_bind,Option.bind_some]
  rw [Buffer.store_zero_of_le (by rw [hlen]; exact hroom),hlen]
  rfl

theorem RamStorage.read_size : st.read 0 sizeofInt = some (sizeofInt,intBytes st.sz) := by
  rw [RamStorage.read,if_pos rfl]

theorem RamStorage.read_data (hroom : n ≤ st.b.length) :
    st.read 1 n = some ((n : Int),st.b.take n) := by
  rw [RamStorage.read,if_neg (by decide),if_pos rfl,Buffer.load_zero_of_le hroom]
  rfl

/-- A negative size reaches `memcpy`. -/
theorem RamStorage.write_negative {length : Int} (hneg : length < 0) :
    st.write buffer 1 length = none := by
  have hload : Buffer.load buffer 0 length = none := by
    rw [Buffer.load,if_neg]
    omega
  rw [RamStorage.write,if_neg (by decide),if_pos rfl,hload]
  rfl

end

section

variable {st : MainState} {data : List UInt8}

/-- A reply with a configuration that fits the storage. -/
theorem event_of_config {n : Nat} (hpos : 0 < n) (hdata : 40 + n ≤ data.length)
    (hroom : n ≤ st.calcStorage.b.length) (hn : n < 2 ^ 31) :
    event st ((40 + n : Nat) : Int) data = some ⟨⟨data.take 40,
      ⟨(data.drop 40).take n ++ st.calcStorage.b.drop n,n⟩,true⟩,40 + n⟩ := by
  have hsize : ((40 + n : Nat) : Int) - 40 = n := by omega
  have hid : Buffer.load data 0 ((40 : Nat) : Int) = some (data.take 40) :=
    Buffer.load_zero_of_le (by omega)
  have hbuffer : n ≤ (data.drop 40).length := by
    rw [List.length_drop]
    omega
  have hbytes : (⟨st.calcStorage.b,n⟩ : RamStorage).write (data.drop 40) 1 n =
      some ((n : Int),⟨(data.drop 40).take n ++ st.calcStorage.b.drop n,n⟩) :=
    RamStorage.write_data hbuffer hroom
  rw [event,show (40 : Int) = ((40 : Nat) : Int) from rfl,hid]
  simp only [Option.bind_eq_bind,Option.bind_some,Nat.cast_ofNat,hsize]
  rw [if_pos (by omega),RamStorage.write_size (by omega) (by omega)]
  simp only [Option.bind_some]
  rw [if_neg (by decide),hbytes]
  simp only [Option.bind_some]
  rw [if_neg (by omega),Int.toNat_natCast]
  rfl

/-- A reply that ends with the identifier. -/
theorem event_of_id (hdata : 40 ≤ data.length) :
    event st 40 data = some ⟨{ st with idCfg := data.take 40 },40⟩ := by
  have hid : Buffer.load data 0 ((40 : Nat) : Int) = some (data.take 40) :=
    Buffer.load_zero_of_le hdata
  rw [event,show (40 : Int) = ((40 : Nat) : Int) from rfl,hid]
  simp only [Option.bind_eq_bind,Option.bind_some]
  rw [if_neg (by decide)]
  rfl

/-- A reply that ends within the identifier: its size becomes negative, passes the test against 0
and is stored, and the copy of the configuration fails. -/
theorem event_of_short {ID : Int} (hshort : ID < 40) : event st ID data = none := by
  rw [event]
  cases hid : Buffer.load data 0 40 with
  | none => rfl
  | some id =>
      simp only [Option.bind_eq_bind,Option.bind_some]
      rw [if_pos (by omega)]
      cases hsize : st.calcStorage.write (intBytes (ID - 40)) 0 sizeofInt with
      | none => rfl
      | some result =>
          obtain ⟨err,calcStorage⟩ := result
          have herr : err = sizeofInt := by
            rw [RamStorage.write,if_pos rfl] at hsize
            obtain ⟨bytes,-,hreturn⟩ := Option.bind_eq_some_iff.1 hsize
            cases hreturn
            rfl
          simp only [Option.bind_some]
          rw [herr,if_neg (by decide),RamStorage.write_negative (by omega)]
          rfl

/-- The reply that `post` hands over is the receive buffer. -/
theorem post_event_length {com : ComHandler} {exchange : Exchange} {currLen : Nat} {ID : Int}
    (hpost : (com.post exchange currLen).1.event = some (ID,data)) :
    data.length = xferBuffSz := by
  rw [ComHandler.post] at hpost
  split at hpost
  · cases hpost
    exact exchange.rxBuff_length
  · cases hpost

theorem event_keeps_config {n : Nat} (hpos : 0 < n) (hdata : 40 + n ≤ data.length)
    (hroom : n ≤ st.calcStorage.b.length) (hn : n < 2 ^ 31) :
    ∃ handled,event st ((40 + n : Nat) : Int) data = some handled ∧
      KeepsConfiguration st ((40 + n : Nat) : Int) data handled := by
  have hsize : ((40 + n : Nat) : Int) - 40 = n := by omega
  have hlen : ((data.drop 40).take n).length = n := by
    rw [List.length_take,List.length_drop]
    omega
  refine ⟨_,event_of_config hpos hdata hroom hn,?_⟩
  constructor
  · exact le_refl _
  · intro _
    rw [RamStorage.read_size,hsize,Option.map_some,intOfBytes_intBytes hn]
  · intro _
    rw [hsize,RamStorage.read_data (by rw [List.length_append,List.length_drop]; omega)]
    rw [List.take_left' hlen,configurationOf,hsize,Int.toNat_natCast]
  · intro _
    rfl
  · intro hshort
    omega

theorem event_keeps_id (hdata : 40 ≤ data.length) :
    ∃ handled,event st 40 data = some handled ∧ KeepsConfiguration st 40 data handled := by
  refine ⟨_,event_of_id hdata,?_⟩
  constructor
  · exact le_refl _
  · intro hlong
    exact absurd hlong (lt_irrefl _)
  · intro hlong
    exact absurd hlong (lt_irrefl _)
  · intro hlong
    exact absurd hlong (lt_irrefl _)
  · intro _
    exact ⟨rfl,rfl⟩

end

/-- A reply that `DoServerRequest` hands over is stored as it should be exactly when it reaches
to the end of the identifier. -/
theorem event_exact (st : MainState) (com : ComHandler) (exchange : Exchange) (currLen : Nat)
    (ID : Int) (data : List UInt8)
    (hpost : (com.post exchange currLen).1.event = some (ID,data))
    (hlow : 1 ≤ ID) (hhigh : ID ≤ xferBuffSz)
    (hstore : st.calcStorage.b.length = calcStorageSz) :
    (∃ handled,event st ID data = some handled ∧ KeepsConfiguration st ID data handled) ↔
      40 ≤ ID := by
  have hdata := post_event_length hpost
  rw [xferBuffSz] at hdata hhigh
  rw [calcStorageSz] at hstore
  constructor
  · rintro ⟨handled,hevent,-⟩
    by_contra hshort
    rw [event_of_short (by omega)] at hevent
    cases hevent
  · intro hid
    obtain ⟨n,rfl⟩ : ∃ n : Nat,ID = ((40 + n : Nat) : Int) := ⟨(ID - 40).toNat,by omega⟩
    rcases Nat.eq_zero_or_pos n with rfl | hpos
    · exact event_keeps_id (by omega)
    · exact event_keeps_config hpos (by omega) (by omega) (by omega)

section

/-- A device before its first configuration. -/
def freshMainState : MainState :=
  ⟨List.replicate 40 0,RamStorage.new calcStorageSz 0,false⟩

def freshCom : ComHandler :=
  ComHandler.new true ⟨List.replicate 15 48,List.replicate 40 0,0,0,List.length_replicate,
    List.length_replicate⟩ []

/-- The server answers with so many bytes. -/
def answered (rcvdLen : Int) : Exchange :=
  ⟨0,0,rcvdLen,List.replicate xferBuffSz 65,none,List.length_replicate⟩

theorem event_exact_example :
    ((freshCom.post (answered 48) 0).1.event = some (48,List.replicate xferBuffSz 65) ∧
      freshMainState.calcStorage.b.length = calcStorageSz) ∧
    ((∃ handled,event freshMainState 48 (List.replicate xferBuffSz 65) = some handled ∧
      KeepsConfiguration freshMainState 48 (List.replicate xferBuffSz 65) handled) ↔
        (40 : Int) ≤ 48) :=
  ⟨⟨rfl,List.length_replicate⟩,event_exact freshMainState freshCom (answered 48) 0 48 _ rfl
    (by decide) (by decide) List.length_replicate⟩

/-- A reply of one byte: the size -39 is stored, and the copy of so many bytes faults. -/
theorem event_short_reply :
    (freshCom.post (answered 1) 0).1.event = some (1,List.replicate xferBuffSz 65) ∧
    freshMainState.calcStorage.b.length = calcStorageSz ∧
    ¬∃ handled,event freshMainState 1 (List.replicate xferBuffSz 65) = some handled ∧
      KeepsConfiguration freshMainState 1 (List.replicate xferBuffSz 65) handled := by
  refine ⟨rfl,List.length_replicate,?_⟩
  rintro ⟨handled,hevent,-⟩
  rw [event_of_short (by decide)] at hevent
  cases hevent

end

end Pyrn.Device
