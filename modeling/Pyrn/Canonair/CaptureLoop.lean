import Pyrn.Canonair.ConfigLoop

/-!
# The capture loop

Each round of the main loop of `APP_CANONAIR_V2` fills `recordData` with a frame mode, the
packet counter, what the recorders have captured, the IMU frame and the GPS frame, and sends it.
-/

namespace Pyrn.Canonair

open Pyrn.Can PackedStruct LittleEndian

/-- The samples of the accelerometer and the magnetometer, as the bits of their floats. -/
structure ImuSample where
  lax : UInt32
  lay : UInt32
  laz : UInt32
  lmx : UInt32
  lmy : UInt32
  lmz : UInt32
  deriving DecidableEq, Repr

/-- `gpsImpact`, the signed fields as their bits. -/
structure GpsImpact where
  date : UInt32
  time : UInt32
  lon : UInt32
  lat : UInt32
  alt : UInt32
  hdop : UInt16
  deriving DecidableEq, Repr

def sizeofGpsImpact : Nat := 22

def sizeofImuFrame : Nat := 47

def sizeofGpsFrame : Nat := 45

/-- The bytes of `imuFrame`, a packed structure. -/
def imuFrame (sample : ImuSample) : List UInt8 :=
  image [(2,sizeofImuFrame - 2),(4,0xA5A5A5A5),(2,0),(2,24),(1,6),
    (1,0),(1,4),(1,1),(1,4),(1,2),(1,4),(1,3),(1,4),(1,4),(1,4),(1,5),(1,4),
    (4,sample.lax.toNat),(4,sample.lay.toNat),(4,sample.laz.toNat),
    (4,sample.lmx.toNat),(4,sample.lmy.toNat),(4,sample.lmz.toNat)]

/-- The bytes of `gpsFrame`, a packed structure. -/
def gpsFrame (impact : GpsImpact) : List UInt8 :=
  image [(2,sizeofGpsFrame - 2),(4,0x5A5A5A5A),(2,0),(2,sizeofGpsImpact),(1,6),
    (1,0),(1,4),(1,1),(1,4),(1,2),(1,4),(1,3),(1,4),(1,4),(1,4),(1,5),(1,2),
    (4,impact.date.toNat),(4,impact.time.toNat),(4,impact.lon.toNat),
    (4,impact.lat.toNat),(4,impact.alt.toNat),(2,impact.hdop.toNat)]

/-- `recordData` and the offset behind what is written. -/
structure RecordData where
  bytes : List UInt8
  offset : Nat
  deriving DecidableEq, Repr

/-- Write at the offset and move it; `none` is a write past the end of `recordData`, so the
offset stays in the range of its type. -/
def RecordData.write (st : RecordData) (xs : List UInt8) : Option RecordData := do
  let bytes ← Buffer.store st.bytes st.offset xs
  return ⟨bytes,st.offset + xs.length⟩

/-- The loop over the recorders, with what `Capture` leaves in `buff` for each of them; nothing
is left while a recorder is learning or has no impact. -/
def capture (st : RecordData) : List (List UInt8) → Option RecordData
  | [] => some st
  | buff :: later =>
      if buff.length ≠ 0 then do
        let st ← st.write (toBytes 2 buff.length)
        let st ← st.write buff
        capture st later
      else capture st later

/-- `udpDataClient::SendData`: the datagram that is sent. -/
def sendData (data : List UInt8) (len : Nat) : Option (List UInt8) :=
  Buffer.load (data.set 0 2) 0 len

/-- One round: the datagram, or `none` when a write leaves `recordData`. -/
def captureRound (pktCount : UInt16) (captures : List (List UInt8)) (sample : ImuSample)
    (impact : Option GpsImpact) : Option (List UInt8) := do
  let st : RecordData := ⟨List.replicate recDtaSz 0,0⟩
  let st ← st.write [0x02]
  let st ← st.write (toBytes 2 pktCount.toNat)
  let st ← capture st captures
  let st ← st.write (imuFrame sample)
  let st ← match impact with
    | some impact => st.write (gpsFrame impact)
    | none => some st
  sendData st.bytes st.offset

/-- A record with the layout id(4) | dt(2) | n(2) | nChunk(1) | entries(n*2) | data(n). -/
structure CapturedRecord where
  addr : UInt32
  dt : UInt16
  n : UInt16
  chunks : List CANRecorderData
  data : List UInt8
  chunks_pos : 1 ≤ chunks.length
  chunks_le : chunks.length ≤ 255
  len_pos : ∀ chunk ∈ chunks, 1 ≤ chunk.len.toNat
  data_length : data.length = (chunks.map fun chunk => chunk.len.toNat).sum

namespace CapturedRecord

def header (record : CapturedRecord) : List UInt8 :=
  image [(4,record.addr.toNat),(2,record.dt.toNat),(2,record.n.toNat),(1,record.chunks.length)]

def entries (record : CapturedRecord) : List UInt8 :=
  record.chunks.flatMap fun chunk => [chunk.start,chunk.len]

def body (record : CapturedRecord) : List UInt8 := record.header ++ record.entries ++ record.data

/-- The body behind its size. -/
def framed (record : CapturedRecord) : List UInt8 := toBytes 2 record.body.length ++ record.body

end CapturedRecord

/-- The part of the IMU frame behind its size is a record. -/
def imuRecord (sample : ImuSample) : CapturedRecord where
  addr := 0xA5A5A5A5
  dt := 0
  n := 24
  chunks := [⟨0,4⟩,⟨1,4⟩,⟨2,4⟩,⟨3,4⟩,⟨4,4⟩,⟨5,4⟩]
  data := image [(4,sample.lax.toNat),(4,sample.lay.toNat),(4,sample.laz.toNat),
    (4,sample.lmx.toNat),(4,sample.lmy.toNat),(4,sample.lmz.toNat)]
  chunks_pos := by decide
  chunks_le := by decide
  len_pos := by decide
  data_length := image_length _

def gpsRecord (impact : GpsImpact) : CapturedRecord where
  addr := 0x5A5A5A5A
  dt := 0
  n := 22
  chunks := [⟨0,4⟩,⟨1,4⟩,⟨2,4⟩,⟨3,4⟩,⟨4,4⟩,⟨5,2⟩]
  data := image [(4,impact.date.toNat),(4,impact.time.toNat),(4,impact.lon.toNat),
    (4,impact.lat.toNat),(4,impact.alt.toNat),(2,impact.hdop.toNat)]
  chunks_pos := by decide
  chunks_le := by decide
  len_pos := by decide
  data_length := image_length _

theorem imuFrame_eq (sample : ImuSample) : imuFrame sample = (imuRecord sample).framed := by
  rfl

theorem gpsFrame_eq (impact : GpsImpact) : gpsFrame impact = (gpsRecord impact).framed := by
  rfl

end Pyrn.Canonair
