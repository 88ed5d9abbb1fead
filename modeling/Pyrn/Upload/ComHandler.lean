import Pyrn.Storage.RamCircBuff
import Pyrn.Upload.ResultStream

/-!
# The communication handler

`AddResults` queues results in a circular buffer; `DoServerRequest` drains the buffer into
frames and posts them. Both hold the buffer mutex, so each is one step of a run.
-/

namespace Pyrn.Upload

open LittleEndian Pyrn.Storage

def comHandlerBuffSize : Nat := 2096

def dataStorageSize : Nat := 1024

def xferBuffSz : Nat := 512

/-- Assignment to a `uint16_t`. -/
def uint16 (x : Int) : Int := x % 2 ^ 16

structure FrameHdr where
  imei : List UInt8
  idCfg : List UInt8
  time : UInt32
  newSess : UInt8
  imei_length : imei.length = 15
  idCfg_length : idCfg.length = 40
  deriving DecidableEq, Repr

/-- `sizeof(frameHdr)`, a packed structure. -/
def sizeofFrameHdr : Nat := 60

def FrameHdr.image (hdr : FrameHdr) : List UInt8 :=
  hdr.imei ++ hdr.idCfg ++ toBytes 4 hdr.time.toNat ++ [hdr.newSess]

/-- The 40 bytes that `setIdConfig` copies. -/
structure IdConfig where
  id : List UInt8
  id_length : id.length = 40
  deriving DecidableEq, Repr

/-- What happens outside during one post: the clock, the result of `http.post`, the length the
server has announced, the receive buffer as the client leaves it, and the identifier that the
callback hands to `setIdConfig`, if it does. -/
structure Exchange where
  time : UInt32
  ret : Int
  rcvdLen : Int
  rxBuff : List UInt8
  idConfig : Option IdConfig
  rxBuff_length : rxBuff.length = xferBuffSz
  deriving DecidableEq, Repr

/-- One post: the bytes that the HTTP client transmits, and the event raised for the reply with
its size and the receive buffer. -/
structure Post where
  frame : List UInt8
  event : Option (Int × List UInt8)
  deriving DecidableEq, Repr

structure ComHandler where
  hasCallback : Bool
  first : Bool
  hdr : FrameHdr
  txBuff : List UInt8
  dataStorage : RamCircBuff
  deriving DecidableEq, Repr

/-- How the loop over the storage ends. -/
inductive DrainEnd
  | noMoreData
  | noMoreSpace
  | storageError
  | outOfFuel
  deriving DecidableEq, Repr

/-- How `DoServerRequest` ends; on a storage error it returns from the middle. -/
inductive ServeEnd
  | served
  | storageError
  | outOfFuel
  deriving DecidableEq, Repr

namespace ComHandler

/-- The constructor, with a transmit buffer whose contents are arbitrary. -/
def new (hasCallback : Bool) (hdr : FrameHdr) (txBuff : List UInt8) : ComHandler where
  hasCallback := hasCallback
  first := true
  hdr := { hdr with
    idCfg := List.replicate 40 0xa5
    idCfg_length := List.length_replicate }
  txBuff := txBuff
  dataStorage := RamCircBuff.new dataStorageSize

def setIdConfig (st : ComHandler) (config : IdConfig) : ComHandler :=
  { st with hdr := { st.hdr with idCfg := config.id, idCfg_length := config.id_length } }

/-- `none` is a copy outside a buffer. -/
def addResults (st : ComHandler) (sensorType : UInt8) (ldata : List UInt8) (len : UInt16) :
    Option (Bool × ComHandler) := do
  let n := len.toNat
  let txBuff ← Buffer.store st.txBuff 0
    [sensorType,UInt8.ofNat (n % 256),UInt8.ofNat (n / 256)]
  let data ← Buffer.load ldata 0 n
  let txBuff ← Buffer.store txBuff 3 data
  let (r,dataStorage) ← st.dataStorage.put txBuff ((n : Int) + 3)
  let st := { st with txBuff := txBuff, dataStorage := dataStorage }
  if r = -1 then return (false,st)
  return (decide (r = (n : Int) + 3),st)

def fillHeader (st : ComHandler) (time : UInt32) : Option ComHandler := do
  let hdr := { st.hdr with time := time, newSess := if st.first then 49 else 48 }
  let txBuff ← Buffer.store st.txBuff 0 hdr.image
  return { st with hdr := hdr, first := false, txBuff := txBuff }

/-- The loop that fills the frame from the storage. -/
def drain : Nat → RamCircBuff → List UInt8 → Nat →
    Option (DrainEnd × RamCircBuff × List UInt8 × Nat)
  | 0, dataStorage, txBuff, currLen => some (.outOfFuel,dataStorage,txBuff,currLen)
  | fuel + 1, dataStorage, txBuff, currLen => do
      let r ← dataStorage.probe
      if r < 0 then return (.storageError,dataStorage,txBuff,currLen)
      else if r = 0 then return (.noMoreData,dataStorage,txBuff,currLen)
      else if r + currLen > 2096 then return (.noMoreSpace,dataStorage,txBuff,currLen)
      else
        let (l,rest,dataStorage) ← dataStorage.get (txBuff.drop currLen) 2096
        let txBuff := txBuff.take currLen ++ rest
        if l = -1 then return (.storageError,dataStorage,txBuff,currLen)
        else drain fuel dataStorage txBuff (uint16 (currLen + l)).toNat

/-- `http.post` with the frame, and the callback on a successful reply. -/
def post (st : ComHandler) (exchange : Exchange) (currLen : Nat) : Post × ComHandler :=
  let frame := st.txBuff.take currLen
  if exchange.ret = 0 ∧ st.hasCallback = true ∧ exchange.rcvdLen ≠ 0 then
    (⟨frame,some (exchange.rcvdLen,exchange.rxBuff)⟩,match exchange.idConfig with
      | none => st
      | some config => st.setIdConfig config)
  else (⟨frame,none⟩,st)

/-- `DoServerRequest`; the exchanges are numbered by the posts of the call. -/
def doServerRequest : Nat → (Nat → Exchange) → ComHandler →
    Option (ServeEnd × List Post × ComHandler)
  | 0, _, st => some (.outOfFuel,[],st)
  | fuel + 1, exchanges, st => do
      let st ← st.fillHeader (exchanges 0).time
      let (drained,dataStorage,txBuff,currLen) ← drain fuel st.dataStorage st.txBuff sizeofFrameHdr
      let st := { st with dataStorage := dataStorage, txBuff := txBuff }
      match drained with
      | .outOfFuel => return (.outOfFuel,[],st)
      | .storageError => return (.storageError,[],st)
      | .noMoreData =>
          let (sent,st) := st.post (exchanges 0) currLen
          return (.served,[sent],st)
      | .noMoreSpace =>
          let (sent,st) := st.post (exchanges 0) currLen
          let (ended,posts,st) ← doServerRequest fuel (fun n => exchanges (n + 1)) st
          return (ended,sent :: posts,st)

end ComHandler

end Pyrn.Upload
