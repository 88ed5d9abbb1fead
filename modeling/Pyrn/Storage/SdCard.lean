import Pyrn.Framework.BlockCopy
import Pyrn.Framework.RecursiveMutex

/-!
# Storage regions on the SD card

`sdCard` moves whole sectors of 512 bytes; `sdStorage` serves byte requests on the sectors of its
region. The card is the sequence of its bytes, sector `s` being the bytes from `s * 512` on.
The mutex of the card and the mutex of the storage objects are recursive.
-/

namespace Pyrn.Storage

open BlockCopy

/-- The memory behind a pointer, and the contents of a card. -/
abbrev Bytes := Int → UInt8

/-- What a block command meets: whether another thread has the card, whether the card answers
the command with zero, and whether it takes the data block. -/
structure DiskAnswer where
  mutexFree : Bool
  accepted : Bool
  stored : Bool
  deriving DecidableEq, Repr

/-- What the calls of a thread meet: the answers to its block commands, and for each attempt at
the storage mutex whether another thread has it. -/
structure SdEnv where
  disk : Nat → DiskAnswer
  free : Nat → Bool

/-- The card never fails and the locks are available. -/
structure SdEnv.Faultless (env : SdEnv) : Prop where
  disk : ∀ n, env.disk n = ⟨true,true,true⟩
  free : ∀ n, env.free n = true

inductive DiskOutcome
  | busy
  | refused
  | done
  deriving DecidableEq, Repr

/-- A call of `disk_read` or `disk_write`. -/
structure DiskCommand where
  write : Bool
  block : Int
  outcome : DiskOutcome
  deriving DecidableEq, Repr

/-- The card, the mutex of the card and the one shared by the storage objects, the number of
attempts at the latter, and the block commands so far, the latest first. -/
structure SdState where
  card : Bytes
  cardAccess : RecursiveMutex
  access : RecursiveMutex
  attempts : Nat
  trace : List DiskCommand

namespace SdState

def answer (env : SdEnv) (s : SdState) : DiskAnswer := env.disk s.trace.length

/-- Whether `sdCard::access.trylock()` succeeds. -/
def obtainsCard (env : SdEnv) (s : SdState) : Bool := s.cardAccess.obtains (s.answer env).mutexFree

/-- The state behind a block command that ends before the data is transferred. -/
def failed (s : SdState) (command : DiskCommand) (cardAccess : RecursiveMutex) : SdState :=
  { s with cardAccess := cardAccess, trace := command :: s.trace }

/-- Whether `access->trylock()` succeeds. -/
def obtains (env : SdEnv) (s : SdState) : Bool := s.access.obtains (env.free s.attempts)

def trylock (env : SdEnv) (s : SdState) : SdState :=
  { s with access := s.access.trylock (env.free s.attempts), attempts := s.attempts + 1 }

def unlock (s : SdState) : SdState := { s with access := s.access.unlock }

end SdState

/-- The sector as `bufftmp` receives it. -/
def sector (card : Bytes) (block : Int) : Bytes := copy (fun _ => 0) 0 card (block * 512) 512

/-- `disk_read(buffer, block_number)`: the sector, or `none` for `-1`. A refused command returns
without releasing the mutex. -/
def diskRead (env : SdEnv) (block : Int) (s : SdState) : Option Bytes × SdState :=
  if s.obtainsCard env = true then
    if (s.answer env).accepted = true then
      (some (sector s.card block),
        s.failed ⟨false,block,.done⟩ s.cardAccess.acquire.unlock)
    else (none,s.failed ⟨false,block,.refused⟩ s.cardAccess.acquire)
  else (none,s.failed ⟨false,block,.busy⟩ s.cardAccess)

/-- `disk_write(buffer, block_number)`. Whether the card has taken the data is not looked at. -/
def diskWrite (env : SdEnv) (buffer : Bytes) (block : Int) (s : SdState) : Int × SdState :=
  if s.obtainsCard env = true then
    if (s.answer env).accepted = true then
      (0,{ s.failed ⟨true,block,.done⟩ s.cardAccess.acquire.unlock with
        card := if (s.answer env).stored = true then copy s.card (block * 512) buffer 0 512
          else s.card })
    else (-1,s.failed ⟨true,block,.refused⟩ s.cardAccess.acquire)
  else (-1,s.failed ⟨true,block,.busy⟩ s.cardAccess)

/-- The bytes that one turn of either loop moves. -/
def nCpy (length i offset : Int) : Int :=
  if offset ≠ 0 ∧ i = 0 then if 512 - offset > length then length else 512 - offset
  else if length - i > 512 then 512 else length - i

/-- The local variables of the two loops. -/
structure LoopVars where
  currSectorIndex : Int
  i : Int
  offset : Int
  err : Int
  deriving DecidableEq, Repr

/-- The variables behind a turn that has moved its bytes. -/
def LoopVars.next (v : LoopVars) (length : Int) : LoopVars :=
  ⟨v.currSectorIndex + 1,v.i + nCpy length v.i v.offset,0,0⟩

/-- The loop of `Read` over the memory from `start` on; `none` is a loop that has not ended. -/
def readLoop (env : SdEnv) (start length : Int) :
    Nat → LoopVars → Bytes → SdState → Option (Int × Bytes × SdState)
  | 0, _, _, _ => none
  | fuel + 1, v, buffer, s =>
      if v.i < length then
        match diskRead env v.currSectorIndex s with
        | (none,s) => some (-1,buffer,s.unlock)
        | (some bufftmp,s) =>
            readLoop env start length fuel (v.next length)
              (copy buffer (start + v.i) bufftmp v.offset (nCpy length v.i v.offset)) s
      else some (v.err,buffer,s.unlock)

/-- What `bufftmp` holds before the bytes of one turn of `Write` go in: the sector in front of
an offset, zeros elsewhere. -/
def writeBase (env : SdEnv) (v : LoopVars) (s : SdState) : Option Bytes × SdState :=
  if v.offset ≠ 0 ∧ v.i = 0 then diskRead env v.currSectorIndex s else (some fun _ => 0,s)

/-- The loop of `Write`. The mutex is released behind every sector that has been written, and
neither behind the loop nor when a sector cannot be written. -/
def writeLoop (env : SdEnv) (buffer : Bytes) (start length : Int) :
    Nat → LoopVars → SdState → Option (Int × SdState)
  | 0, _, _ => none
  | fuel + 1, v, s =>
      if v.i < length then
        match writeBase env v s with
        | (none,s) => some (-1,s.unlock)
        | (some base,s) =>
            match diskWrite env
              (copy base v.offset buffer (start + v.i) (nCpy length v.i v.offset))
              v.currSectorIndex s with
            | (err,s) =>
                if err = -1 then some (err,s)
                else writeLoop env buffer start length fuel (v.next length) s.unlock
      else some (v.err,s)

/-- Turns enough for every loop over `length` bytes with an offset inside a sector. -/
def turns (length : Int) : Nat := length.toNat + 1

structure SdStorage where
  iSectorStart : Int
  nSectors : Int
  deriving DecidableEq, Repr

namespace SdStorage

/-- The constructor on a card of `maxSectors` sectors; the fields keep what the memory of the
object held when the region is refused. -/
def new (memory : SdStorage) (maxSectors iSectStart nSects : Int) : SdStorage :=
  if nSects < maxSectors then ⟨iSectStart,nSects⟩ else memory

/-- The bytes from an offset in a sector to the end of the region. -/
def room (region : SdStorage) (index offset : Int) : Int :=
  (region.nSectors - index) * 512 - offset

/-- The variables at the beginning of either loop. -/
def begin (region : SdStorage) (index offset : Int) : LoopVars :=
  ⟨region.iSectorStart + index,0,offset,-1⟩

/-- `Read(buffer + start, index, length, offset)`. -/
def read (env : SdEnv) (region : SdStorage) (buffer : Bytes)
    (start index length offset : Int) (s : SdState) : Option (Int × Bytes × SdState) :=
  if s.obtains env = true then
    let length := if region.room index offset < length then region.room index offset else length
    readLoop env start length (turns length) (region.begin index offset) buffer (s.trylock env)
  else some (-1,buffer,s.trylock env)

/-- `Write(buffer + start, index, length, offset)`. A request that is too long is cut without
regard to the offset. -/
def write (env : SdEnv) (region : SdStorage) (buffer : Bytes)
    (start index length offset : Int) (s : SdState) : Option (Int × SdState) :=
  if s.obtains env = true then
    let length := if region.room index offset < length then (region.nSectors - index) * 512
      else length
    writeLoop env buffer start length (turns length) (region.begin index offset) (s.trylock env)
  else some (-1,s.trylock env)

/-- `Clear(index)`. The index is a sector of the card, not of a region. -/
def clear (env : SdEnv) (index : Int) (s : SdState) : Int × SdState :=
  if s.obtains env = true then
    match diskWrite env (fun _ => 0) index (s.trylock env) with
    | (err,s) => (err,s.unlock)
  else (0,s.trylock env)

end SdStorage

end Pyrn.Storage
