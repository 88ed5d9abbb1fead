import Pyrn.Storage.RamCircBuff
import Pyrn.Storage.SdCard

/-!
# The circular buffer on the SD card

`sdCircBuff` keeps length-prefixed byte records in a storage region. Every access to the card
goes through `Read` and `Write` of the region; header and data of a record may each be split
at the end of the region.
-/

namespace Pyrn.Storage

open BlockCopy

structure SdCircBuff extends SdStorage where
  size : Int
  current : Int
  pRead : Int
  pWrite : Int
  deriving DecidableEq, Repr

/-- The memory of an `int` object. -/
def intMemory (x : Int) : Bytes := image 0 (intBytes x)

/-- The `int` at an address. -/
def intAt (memory : Bytes) : Int := intOfBytes (cells memory 0 4)

namespace SdCircBuff

/-- The constructor: the region, a cleared first sector, and the cursors. -/
def new (env : SdEnv) (memory : SdStorage) (maxSectors iSectStart nSects : Int) (s : SdState) :
    SdCircBuff × SdState :=
  ({ SdStorage.new memory maxSectors iSectStart nSects with
      size := nSects * 512, current := 0, pRead := 0, pWrite := 0 },(SdStorage.clear env 0 s).2)

/-- `Write` of `length` bytes at the byte position `p` of the region. -/
def writeAt (env : SdEnv) (ring : SdCircBuff) (buffer : Bytes) (start p length : Int)
    (s : SdState) : Option (Int × SdState) :=
  ring.write env buffer start (p.tdiv 512) length (p.tmod 512) s

/-- `Read` of `length` bytes at the byte position `p` of the region. -/
def readAt (env : SdEnv) (ring : SdCircBuff) (buffer : Bytes) (start p length : Int)
    (s : SdState) : Option (Int × Bytes × SdState) :=
  ring.read env buffer start (p.tdiv 512) length (p.tmod 512) s

/-- The bytes from a cursor to the end of the region, as they are compared with a `sizeof`. -/
def behind (ring : SdCircBuff) (cursor : Int) : Int := toUnsigned (ring.size - cursor)

/-- `Put` without a split. The result of the data write is dropped: the check behind it looks at
the result of the header write again. -/
def putWhole (env : SdEnv) (ring : SdCircBuff) (buffer : Bytes) (length : Int) (s : SdState) :
    Option (Int × SdCircBuff × SdState) := do
  let (err,s) ← ring.writeAt env (intMemory length) 0 ring.pWrite sizeofInt s
  if err = -1 then return (-1,ring,s)
  let ring := { ring with pWrite := ring.pWrite + sizeofInt }
  let (_,s) ← ring.writeAt env buffer 0 ring.pWrite length s
  let pWrite := ring.pWrite + length
  return (err,{ ring with pWrite := if pWrite = ring.size then 0 else pWrite },s)

/-- `Put` with the split between header and data. -/
def putBetween (env : SdEnv) (ring : SdCircBuff) (buffer : Bytes) (length : Int) (s : SdState) :
    Option (Int × SdCircBuff × SdState) := do
  let (err,s) ← ring.writeAt env (intMemory length) 0 ring.pWrite sizeofInt s
  if err = -1 then return (-1,ring,s)
  let (err,s) ← ring.write env buffer 0 0 length 0 s
  if err = -1 then return (-1,ring,s)
  return (err,{ ring with pWrite := length },s)

/-- The header part of a split `Put`. The result of its second write is dropped. -/
def putHeader (env : SdEnv) (ring : SdCircBuff) (length : Int) (s : SdState) :
    Option (Int × SdCircBuff × SdState) :=
  if sizeofInt < ring.behind ring.pWrite then do
    let (err,s) ← ring.writeAt env (intMemory length) 0 ring.pWrite sizeofInt s
    if err = -1 then return (-1,ring,s)
    return (err,{ ring with pWrite := ring.pWrite + sizeofInt },s)
  else do
    let sz := ring.size - ring.pWrite
    let compSz := sizeofInt - sz
    let (err,s) ← ring.writeAt env (intMemory length) 0 ring.pWrite sz s
    if err = -1 then return (-1,ring,s)
    let (_,s) ← ring.write env (intMemory length) sz 0 compSz 0 s
    return (err,{ ring with pWrite := compSz },s)

/-- The data part of a split `Put`. -/
def putData (env : SdEnv) (ring : SdCircBuff) (buffer : Bytes) (length : Int) (s : SdState) :
    Option (Int × SdCircBuff × SdState) :=
  if length < ring.size - ring.pWrite then do
    let (err,s) ← ring.writeAt env buffer 0 ring.pWrite length s
    if err = -1 then return (-1,ring,s)
    return (err,{ ring with pWrite := ring.pWrite + length },s)
  else do
    let sz := ring.size - ring.pWrite
    let compSz := length - sz
    let (err,s) ← ring.writeAt env buffer 0 ring.pWrite sz s
    if err = -1 then return (-1,ring,s)
    let (err,s) ← ring.write env buffer sz 0 compSz 0 s
    if err = -1 then return (-1,ring,s)
    return (err,{ ring with pWrite := compSz },s)

def putSplit (env : SdEnv) (ring : SdCircBuff) (buffer : Bytes) (length : Int) (s : SdState) :
    Option (Int × SdCircBuff × SdState) := do
  let (err,ring,s) ← ring.putHeader env length s
  if err = -1 then return (-1,ring,s)
  ring.putData env buffer length s

/-- Header and data of a record, in the branch that the position of `pWrite` selects. -/
def putRecord (env : SdEnv) (ring : SdCircBuff) (buffer : Bytes) (length : Int) (s : SdState) :
    Option (Int × SdCircBuff × SdState) :=
  if toUnsigned (length + sizeofInt) ≤ ring.behind ring.pWrite then
    ring.putWhole env buffer length s
  else if sizeofInt = ring.behind ring.pWrite then ring.putBetween env buffer length s
  else ring.putSplit env buffer length s

/-- `Put(buffer, length)`. Without enough space it returns with the mutex held. -/
def put (env : SdEnv) (ring : SdCircBuff) (buffer : Bytes) (length : Int) (s : SdState) :
    Option (Int × SdCircBuff × SdState) :=
  if s.obtains env = true then
    if length < 0 ∨ length > 2048 then some (-1,ring,(s.trylock env).unlock)
    else if toUnsigned (ring.current + length + sizeofInt) < toUnsigned ring.size then do
      let (err,ring,s) ← ring.putRecord env buffer length (s.trylock env)
      if err = -1 then return (-1,ring,s.unlock)
      return (length,{ ring with current := ring.current + (length + sizeofInt) },s.unlock)
    else some (-1,ring,s.trylock env)
  else some (0,ring,s.trylock env)

/-- Read the record header at `pRead` into a local variable: the result of the last read, the
memory of the variable, and whether the header was split. -/
def readHeader (env : SdEnv) (ring : SdCircBuff) (blocLen : Bytes) (s : SdState) :
    Option (Int × Bytes × Bool × SdState) :=
  if sizeofInt ≤ ring.behind ring.pRead then do
    let (err,blocLen,s) ← ring.readAt env blocLen 0 ring.pRead sizeofInt s
    return (err,blocLen,false,s)
  else do
    let sz := ring.size - ring.pRead
    let compSz := sizeofInt - sz
    let (err,blocLen,s) ← ring.readAt env blocLen 0 ring.pRead sz s
    if err = -1 then return (-1,blocLen,true,s)
    let (err,blocLen,s) ← ring.read env blocLen sz 0 compSz 0 s
    return (err,blocLen,true,s)

/-- Where `Get` moves `pRead` behind the header. The cursor has moved already when the bytes
behind it are compared with the size of the header. -/
def headerEnd (ring : SdCircBuff) (split : Bool) : Int :=
  if split = true then sizeofInt - (ring.size - ring.pRead)
  else if sizeofInt = ring.behind (ring.pRead + sizeofInt) then 0
  else ring.pRead + sizeofInt

/-- Read the record data at `pRead`. The first part of a split record asks for the whole record
and is cut at the end of the region. -/
def getData (env : SdEnv) (ring : SdCircBuff) (buffer : Bytes) (blocLen : Int) (s : SdState) :
    Option (Int × Bytes × SdCircBuff × SdState) :=
  if blocLen ≤ ring.size - ring.pRead then do
    let (err,buffer,s) ← ring.readAt env buffer 0 ring.pRead blocLen s
    if err = -1 then return (-1,buffer,ring,s)
    let pRead := ring.pRead + blocLen
    return (err,buffer,
      { ring with pRead := if blocLen = ring.size - pRead then 0 else pRead },s)
  else do
    let sz := ring.size - ring.pRead
    let compSz := blocLen - sz
    let (err,buffer,s) ← ring.readAt env buffer 0 ring.pRead blocLen s
    if err = -1 then return (-1,buffer,ring,s)
    let (err,buffer,s) ← ring.read env buffer sz 0 compSz 0 s
    if err = -1 then return (-1,buffer,ring,s)
    return (err,buffer,{ ring with pRead := compSz },s)

/-- `Get(buffer, length)` with the memory behind `buffer` before and after; `stack` is what the
variable for the header holds before it is read. -/
def get (env : SdEnv) (stack : Bytes) (ring : SdCircBuff) (buffer : Bytes) (length : Int)
    (s : SdState) : Option (Int × Bytes × SdCircBuff × SdState) :=
  if s.obtains env = true then
    if ring.current ≠ 0 then do
      let (err,memory,split,s) ← ring.readHeader env stack (s.trylock env)
      if err = -1 then return (-1,buffer,ring,s.unlock)
      let ring := { ring with pRead := ring.headerEnd split }
      let blocLen := intAt memory
      if blocLen ≤ 0 ∨ blocLen ≥ 2048 then return (-1,buffer,ring,s.unlock)
      if blocLen > length then return (-1,buffer,ring,s.unlock)
      let (err,buffer,ring,s) ← ring.getData env buffer blocLen s
      if err = -1 then return (-1,buffer,ring,s.unlock)
      return (blocLen,buffer,{ ring with current := ring.current - (blocLen + sizeofInt) },
        s.unlock)
    else some (0,buffer,ring,(s.trylock env).unlock)
  else some (0,buffer,ring,s.trylock env)

/-- `Probe()`. Four bytes in front of the end of the region `pRead` goes back to the beginning. -/
def probe (env : SdEnv) (ring : SdCircBuff) (s : SdState) :
    Option (Int × SdCircBuff × SdState) :=
  if s.obtains env = true then
    if ring.current ≠ 0 then do
      let (err,memory,split,s) ← ring.readHeader env (intMemory 0) (s.trylock env)
      if err = -1 then return (-1,ring,s.unlock)
      let wraps := split = false ∧ sizeofInt = ring.behind ring.pRead
      return (intAt memory,if wraps then { ring with pRead := 0 } else ring,s.unlock)
    else some (0,ring,(s.trylock env).unlock)
  else some (0,ring,s.trylock env)

end SdCircBuff

end Pyrn.Storage
