import Pyrn.Framework.LittleEndian
import Pyrn.Framework.Ring

/-!
# The RAM circular buffer

`ramCircBuff` keeps length-prefixed byte records in a block of `bSz` bytes. The header and
the data of a record may each be split at the end of the block.
-/

namespace Pyrn.Storage

/-- `sizeof(int)` on the target. -/
def sizeofInt : Int := 4

/-- The usual arithmetic conversion of an `int` that meets a `sizeof`: arithmetic modulo
`2 ^ 32`. -/
def toUnsigned (x : Int) : Int := x % 2 ^ 32

/-- The bytes of an `int` object. -/
def intBytes (x : Int) : List UInt8 := LittleEndian.toBytes 4 (toUnsigned x).toNat

/-- The `int` stored in four bytes. -/
def intOfBytes (bytes : List UInt8) : Int := LittleEndian.signed 4 (LittleEndian.ofBytes bytes)

/-- A cursor that has reached the end of the block goes back to its beginning. -/
def rewind (bSz cursor : Int) : Int := if cursor ≥ bSz then 0 else cursor

structure RamCircBuff where
  b : List UInt8
  bSz : Int
  currSz : Int
  pWrite : Int
  pRead : Int
  deriving DecidableEq, Repr

namespace RamCircBuff

/-- The constructor, over the cleared block of `sz` bytes that the allocator hands out. -/
def new (sz : Nat) : RamCircBuff :=
  { b := List.replicate sz 0, bSz := sz, currSz := 0, pWrite := 0, pRead := 0 }

/-- Write the record header at `pWrite`, split at the end of the block if need be. -/
def putHeader (st : RamCircBuff) (length : Int) : Option (List UInt8 × Int) :=
  if toUnsigned (st.pWrite + sizeofInt) ≤ toUnsigned st.bSz then do
    let b ← Buffer.store st.b st.pWrite (intBytes length)
    return (b,st.pWrite + sizeofInt)
  else do
    let sh := st.bSz - st.pWrite
    let low ← Buffer.load (intBytes length) 0 sh
    let b ← Buffer.store st.b st.pWrite low
    let high ← Buffer.load (intBytes length) sh (sizeofInt - sh)
    let b ← Buffer.store b 0 high
    return (b,sizeofInt - sh)

/-- Write the record data at `pWrite`, split at the end of the block if need be. -/
def putData (b : List UInt8) (bSz pWrite : Int) (buffer : List UInt8) (length : Int) :
    Option (List UInt8 × Int) :=
  if pWrite + length < bSz then do
    let data ← Buffer.load buffer 0 length
    let b ← Buffer.store b pWrite data
    return (b,pWrite + length)
  else do
    let s := bSz - pWrite
    let low ← Buffer.load buffer 0 s
    let b ← Buffer.store b pWrite low
    let high ← Buffer.load buffer s (length - s)
    let b ← Buffer.store b 0 high
    return (b,length - s)

/-- `Put(buffer, length)`; `none` is a copy outside one of the two blocks. -/
def put (st : RamCircBuff) (buffer : List UInt8) (length : Int) : Option (Int × RamCircBuff) :=
  if toUnsigned (st.currSz + sizeofInt + length) ≤ toUnsigned st.bSz then
    if toUnsigned (st.pWrite + sizeofInt + length) ≤ toUnsigned st.bSz then do
      let b ← Buffer.store st.b st.pWrite (intBytes length)
      let data ← Buffer.load buffer 0 length
      let b ← Buffer.store b (st.pWrite + sizeofInt) data
      return (length,{ st with
        b := b
        currSz := st.currSz + (sizeofInt + length)
        pWrite := rewind st.bSz (st.pWrite + (sizeofInt + length)) })
    else do
      let (b,pWrite) ← st.putHeader length
      let (b,pWrite) ← putData b st.bSz pWrite buffer length
      return (length,{ st with
        b := b
        currSz := st.currSz + sizeofInt + length
        pWrite := pWrite })
  else return (-1,st)

/-- Read the record header at `pRead`; the cursor behind it comes along. -/
def getHeader (st : RamCircBuff) : Option (Int × Int) :=
  if toUnsigned (st.pRead + sizeofInt) ≤ toUnsigned st.bSz then do
    let header ← Buffer.load st.b st.pRead sizeofInt
    return (intOfBytes header,rewind st.bSz (st.pRead + sizeofInt))
  else do
    let l := st.bSz - st.pRead
    let low ← Buffer.load st.b st.pRead l
    let high ← Buffer.load st.b 0 (sizeofInt - l)
    return (intOfBytes (low ++ high),sizeofInt - l)

/-- `Get(buffer, length)` with the memory behind `buffer`, which is returned as it is left.
The copy takes the `s` bytes of the record while the counters advance by `assertedLength`. -/
def get (st : RamCircBuff) (buffer : List UInt8) (length : Int) :
    Option (Int × List UInt8 × RamCircBuff) :=
  if st.currSz ≠ 0 then do
    let (s,pRead) ← st.getHeader
    let currSz := st.currSz - sizeofInt
    let assertedLength := if s ≤ length then s else length
    if pRead + s ≤ st.bSz then do
      let data ← Buffer.load st.b pRead s
      let buffer ← Buffer.store buffer 0 data
      return (assertedLength,buffer,{ st with
        currSz := currSz - assertedLength
        pRead := rewind st.bSz (pRead + assertedLength) })
    else do
      let l := st.bSz - pRead
      let low ← Buffer.load st.b pRead l
      let buffer ← Buffer.store buffer 0 low
      let high ← Buffer.load st.b 0 (s - l)
      let buffer ← Buffer.store buffer l high
      return (assertedLength,buffer,{ st with
        currSz := currSz - assertedLength
        pRead := s - l })
  else return (0,buffer,st)

/-- `Probe()`: the size of the oldest record, `0` on an empty buffer. -/
def probe (st : RamCircBuff) : Option Int :=
  if st.currSz ≠ 0 then
    if toUnsigned (st.pRead + sizeofInt) ≤ toUnsigned st.bSz then do
      let header ← Buffer.load st.b st.pRead sizeofInt
      return intOfBytes header
    else do
      let l := st.bSz - st.pRead
      let low ← Buffer.load st.b st.pRead l
      let high ← Buffer.load st.b 0 (sizeofInt - l)
      return intOfBytes (low ++ high)
  else return 0

end RamCircBuff

end Pyrn.Storage
