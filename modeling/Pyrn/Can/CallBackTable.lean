import Pyrn.Framework.Buffer
import Pyrn.Framework.LittleEndian

/-!
# The callback table of a CAN interface

The table is an array of `idCbEntry` structures in memory. `DelCallBackForId` closes the gap
with a `memcpy` whose count is a number of bytes, so the table is modelled byte by byte.
-/

namespace Pyrn.Can

open Buffer LittleEndian

/-- `cb` is the address of the callback object. -/
structure IdCbEntry where
  bus : UInt8
  id : UInt32
  cb : UInt32
  deriving DecidableEq, Repr

def canSimultaneousCbs : Nat := 10

/-- `sizeof(idCbEntry)`: `bus`, three bytes of padding, `id` and `cb`. -/
def sizeofIdCbEntry : Nat := 12

def IdCbEntry.image (entry : IdCbEntry) : List UInt8 :=
  entry.bus :: 0 :: 0 :: 0 :: (toBytes 4 entry.id.toNat ++ toBytes 4 entry.cb.toNat)

/-- The fields found in the memory of an entry. -/
def IdCbEntry.ofImage (bytes : List UInt8) : IdCbEntry where
  bus := bytes.headD 0
  id := UInt32.ofNat (ofBytes ((bytes.drop 4).take 4))
  cb := UInt32.ofNat (ofBytes ((bytes.drop 8).take 4))

structure CallBacks where
  nCurrentCbs : Nat
  idCbTable : List UInt8
  deriving DecidableEq, Repr

namespace CallBacks

def imageAt (st : CallBacks) (i : Nat) : List UInt8 :=
  (st.idCbTable.drop (sizeofIdCbEntry * i)).take sizeofIdCbEntry

def entryAt (st : CallBacks) (i : Nat) : IdCbEntry := .ofImage (st.imageAt i)

/-- `idCbTable[0..nCurrentCbs)`. -/
def live (st : CallBacks) : List IdCbEntry := (List.range st.nCurrentCbs).map st.entryAt

/-- The constructor leaves the memory of the table as it is. -/
def new (memory : List UInt8) : CallBacks := ⟨0,memory⟩

/-- `AddCallBackForId`; the mutex is free between calls. -/
def addCallBackForId (st : CallBacks) (bus : UInt8) (id cb : UInt32) : CallBacks :=
  if st.nCurrentCbs = canSimultaneousCbs then st
  else
    let newEntry := sizeofIdCbEntry * st.nCurrentCbs
    let withBus := splice st.idCbTable newEntry [bus]
    let withId := splice withBus (newEntry + 4) (toBytes 4 id.toNat)
    let withCb := splice withId (newEntry + 8) (toBytes 4 cb.toNat)
    ⟨st.nCurrentCbs + 1,withCb⟩

/-- `memcpy` inside the table. -/
def memcpy (table : List UInt8) (dst src count : Nat) : List UInt8 :=
  splice table dst ((table.drop src).take count)

/-- The entry at `i` goes; the count given to `memcpy` is the number of entries behind it. -/
def removeAt (st : CallBacks) (i : Nat) : CallBacks where
  nCurrentCbs := st.nCurrentCbs - 1
  idCbTable := memcpy st.idCbTable (sizeofIdCbEntry * i) (sizeofIdCbEntry * (i + 1))
    (st.nCurrentCbs - (i + 1))

/-- The loop of `DelCallBackForId` at index `i`, with so many indices left. -/
def delFrom (st : CallBacks) (bus : UInt8) (id : UInt32) : Nat → Nat → CallBacks
  | 0, _ => st
  | left + 1, i =>
      if (st.entryAt i).bus = bus ∧ (st.entryAt i).id = id then removeAt st i
      else delFrom st bus id left (i + 1)

def delCallBackForId (st : CallBacks) (bus : UInt8) (id : UInt32) : CallBacks :=
  delFrom st bus id st.nCurrentCbs 0

end CallBacks

/-- A change of the table. -/
inductive TableCall
  | add (bus : UInt8) (id cb : UInt32)
  | del (bus : UInt8) (id : UInt32)
  deriving DecidableEq, Repr

def CallBacks.call (st : CallBacks) : TableCall → CallBacks
  | .add bus id cb => st.addCallBackForId bus id cb
  | .del bus id => st.delCallBackForId bus id

/-- The table as a list: entries are appended while there is room, and a delete removes the
first entry whose bus and id both match. -/
def tableCall (entries : List IdCbEntry) : TableCall → List IdCbEntry
  | .add bus id cb =>
      if entries.length < canSimultaneousCbs then entries ++ [⟨bus,id,cb⟩] else entries
  | .del bus id => entries.eraseP fun entry => decide (entry.bus = bus ∧ entry.id = id)

/-- As many bytes as there are entries behind the removed one restore them only when they are
all the same and agree with the removed one in the bytes that are not copied. -/
def Compacts (bus : UInt8) (id : UInt32) : List IdCbEntry → Prop
  | [] => True
  | entry :: rest =>
      if entry.bus = bus ∧ entry.id = id then
        ∀ next ∈ rest, rest.head? = some next ∧
          entry.image.drop rest.length = next.image.drop rest.length
      else Compacts bus id rest

def TableCallOk (entries : List IdCbEntry) : TableCall → Prop
  | .add _ _ _ => True
  | .del bus id => Compacts bus id entries

/-- Memory of the table and number of its entries. -/
structure CallBacks.WellFormed (st : CallBacks) : Prop where
  table_length : st.idCbTable.length = sizeofIdCbEntry * canSimultaneousCbs
  count_le : st.nCurrentCbs ≤ canSimultaneousCbs

end Pyrn.Can
