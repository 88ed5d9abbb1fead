import Pyrn.Can.Message
import Pyrn.Framework.HalfWords

/-!
# The acceptance filter

`can_filter` keeps a sorted table of the identifiers that the hardware lets through, two in a
word, and `can_unfilter` marks the entries of an identifier as disabled.
-/

namespace Pyrn.Can

open HalfWords

inductive CanBus
  | can1
  | can2
  deriving DecidableEq, Repr

/-- The memory of the filter, the number of its entries and the registers that delimit its
sections. -/
structure AcceptanceFilter where
  mask : Nat → Word
  canAccfCount : Nat
  sffSa : Nat
  sffGrpSa : Nat
  effSa : Nat
  effGrpSa : Nat
  endOfTable : Nat

namespace AcceptanceFilter

/-- The filter after a reset, whatever its memory holds. -/
def initial (ram : Nat → Word) : AcceptanceFilter := ⟨ram,0,0,0,0,0,0⟩

/-- Where the search for an identifier ends: at an entry that has it, in front of a larger one,
which is entry `cnt2`, or behind the last word. -/
inductive Place
  | sameUpper (cnt1 : Nat)
  | sameLower (cnt1 : Nat)
  | before (cnt1 cnt2 : Nat)
  | behind (cnt1 : Nat)
  deriving DecidableEq, Repr

/-- The loop that looks for the place of an identifier, from a word on. -/
def search (mask : Nat → Word) (id : Word) : Nat → Nat → Place
  | 0, cnt1 => .behind cnt1
  | rounds + 1, cnt1 =>
      if mask cnt1 >>> 16 = id then .sameUpper cnt1
      else if mask cnt1 >>> 16 > id then .before cnt1 (cnt1 * 2)
      else if mask cnt1 &&& 0x0000FFFF = id then .sameLower cnt1
      else if mask cnt1 &&& 0x0000FFFF > id then .before cnt1 (cnt1 * 2 + 1)
      else search mask id rounds (cnt1 + 1)

/-- The loop that moves the entries behind a word one place up. The buffers are signed, so that
the shift to the right keeps the sign. -/
def moveUp : Nat → Nat → Word → (Nat → Word) → Nat → Word
  | 0, _, _, mask => mask
  | rounds + 1, cnt1, buf0, mask =>
      let buf1 := mask (cnt1 + 1)
      moveUp rounds (cnt1 + 1) buf1
        (Function.update mask (cnt1 + 1) (buf1.sshiftRight 16 ||| buf0 <<< 16))

/-- The insertion in front of entry `cnt2`, in word `cnt1`, of a table of `n` entries. -/
def insertAt (n cnt1 cnt2 : Nat) (id : Word) (mask : Nat → Word) : Nat → Word :=
  let buf0 := mask cnt1
  let buf1 := if cnt2 % 2 = 0 then id <<< 16 ||| buf0.sshiftRight 16 else buf0 &&& 0xFFFF0000 ||| id
  moveUp (n / 2 - cnt1) cnt1 buf0 (Function.update mask cnt1 buf1)

/-- The insertion behind the last word. -/
def insertBehind (n cnt1 : Nat) (id : Word) (mask : Nat → Word) : Nat → Word :=
  Function.update mask cnt1
    (if n % 2 = 0 then (0x0000FFFF : Word) ||| id <<< 16 else mask cnt1 &&& 0xFFFF0000 ||| id)

/-- An even number of entries has got another one: its word is filled up. -/
def pad (n cnt1 : Nat) (mask : Nat → Word) : Nat → Word :=
  if n % 2 = 0 then Function.update mask cnt1 (mask cnt1 &&& 0xFFFF0000 ||| 0x0000FFFF) else mask

/-- A new entry is counted and the pointers are set. -/
def counted (st : AcceptanceFilter) (mask : Nat → Word) : AcceptanceFilter :=
  let canAccfCount := st.canAccfCount + 1
  let buf0 := (canAccfCount / 2 + 1) * 4
  ⟨mask,canAccfCount,0,buf0,buf0,buf0,buf0⟩

/-- The first word when it has one entry. -/
def secondEntry (id word : Word) : Word :=
  if word >>> 16 = id then word &&& 0xEFFFFFFF
  else if word >>> 16 > id then word >>> 16 ||| id <<< 16
  else word &&& 0xFFFF0000 ||| id

/-- A table of two entries or more: an entry of the identifier is enabled, or a new one is
inserted. -/
def enableOrInsert (st : AcceptanceFilter) (id : Word) : AcceptanceFilter :=
  let n := st.canAccfCount
  match search st.mask id ((n - 1) / 2 + 1) 0 with
  | .sameUpper cnt1 =>
      { st with mask := Function.update st.mask cnt1 (st.mask cnt1 &&& 0xEFFFFFFF) }
  | .sameLower cnt1 =>
      { st with mask := Function.update st.mask cnt1 (st.mask cnt1 &&& 0xFFFFEFFF) }
  | .before cnt1 cnt2 => st.counted (pad n (max cnt1 (n / 2)) (insertAt n cnt1 cnt2 id st.mask))
  | .behind cnt1 => st.counted (pad n cnt1 (insertBehind n cnt1 id st.mask))

/-- `can_filter`. -/
def canFilter (st : AcceptanceFilter) (bus : CanBus) (id mask : Word) (format : CANFormat) :
    AcceptanceFilter :=
  let n := st.canAccfCount
  if (n + 1) / 2 ≥ 512 then st
  else if format = .CANStandard then
    let id := id &&& mask
    let id := if bus = .can2 then id ||| (1 : Word) <<< 13 else id
    let id := id &&& 0x0000F7FF
    if n = 0 then st.counted (Function.update st.mask 0 ((0x0000FFFF : Word) ||| id <<< 16))
    else if n = 1 then st.counted (Function.update st.mask 0 (secondEntry id (st.mask 0)))
    else st.enableOrInsert id
  else st

/-- A word in which the entries of an identifier are marked. The identifier is compared as it is
given, without the bit of its bus. -/
def marked (id word : Word) : Word :=
  let word := if word >>> 16 = id then word ||| (1 : Word) <<< 28 else word
  if word &&& 0x0000FFFF = id then word ||| (1 : Word) <<< 12 else word

/-- The loop of `can_unfilter` from a word on. -/
def markFrom (id : Word) : Nat → Nat → (Nat → Word) → Nat → Word
  | 0, _, mask => mask
  | rounds + 1, i, mask => markFrom id rounds (i + 1) (Function.update mask i (marked id (mask i)))

/-- `can_unfilter`. The count is unsigned, so that the bound of an empty table is no bound. -/
def canUnfilter (st : AcceptanceFilter) (id : Word) (format : CANFormat) : AcceptanceFilter :=
  if format = .CANStandard then
    let bound := (st.canAccfCount + 0xFFFFFFFF) % 0x100000000 / 2
    { st with mask := markFrom id (bound + 1) 0 st.mask }
  else st

end AcceptanceFilter

/-- A call of `SetFilter` for an identifier of eleven bits. -/
structure FilterCall where
  bus : CanBus
  id : BitVec 11
  deriving DecidableEq, Repr

/-- `CANInterface::SetFilter`. -/
def setFilter (st : AcceptanceFilter) (call : FilterCall) : AcceptanceFilter :=
  st.canFilter call.bus (call.id.setWidth 32) 0x0000FFFF .CANStandard

/-- The entry of an identifier and its bus. -/
def FilterCall.entry (call : FilterCall) : Half :=
  match call.bus with
  | .can1 => call.id.setWidth 16
  | .can2 => call.id.setWidth 16 ||| 0x2000

namespace AcceptanceFilter

/-- The entries between `SFF_sa` and `SFF_GRP_sa`, two bytes each. -/
def region (st : AcceptanceFilter) : List Half :=
  (List.range ((st.sffGrpSa - st.sffSa) / 2)).map fun k => half st.mask (st.sffSa / 2 + k)

/-- Bit 12 disables an entry. -/
def Enabled (e : Half) : Prop := e.getLsbD 12 = false

instance (e : Half) : Decidable (Enabled e) := inferInstanceAs (Decidable (_ = _))

end AcceptanceFilter

end Pyrn.Can
