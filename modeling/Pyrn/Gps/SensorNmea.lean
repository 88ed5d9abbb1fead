import Pyrn.Framework.Run
import Pyrn.Gps.TinyGps

/-!
# The NMEA sensor

`GetLine` cuts the received bytes into lines, and `Sample` hands every line to the parser and
stores an impact after a line that has completed a GLL sentence.
-/

namespace Pyrn.Gps

open TinyGPS

/-- `gpsImpact`. -/
structure GpsImpact where
  date : BitVec 32
  time : BitVec 32
  lon : BitVec 32
  lat : BitVec 32
  alt : BitVec 32
  hdop : BitVec 16
  deriving DecidableEq, Repr

/-- `GPS_RECV_BUFF`. -/
def gpsRecvBuff : Nat := 512

/-- How far `GetLine` is: before the first character of a line, behind some characters of it, or
in `error` because the buffer was full. -/
inductive GetLine
  | skipping
  | filling (recvBuff : List UInt8)
  | overflow
  deriving DecidableEq

/-- A character that `GetLine` gets. The line that it completes is given to the parser without its
last character. -/
def getLine : GetLine → UInt8 → Option (List UInt8) × GetLine
  | .skipping, c => if c = byte '$' then (none,.filling [c]) else (none,.skipping)
  | .filling recvBuff, c =>
      if c = byte '\n' then (some recvBuff,.skipping)
      else if recvBuff.length + 1 < gpsRecvBuff - 2 then (none,.filling (recvBuff ++ [c]))
      else (none,.overflow)
  | .overflow, _ => (none,.overflow)

/-- The lines of the received bytes. -/
def linesOf (stream : List UInt8) : List (List UInt8) :=
  (Transition.runTotal getLine .skipping stream).1.filterMap id

/-- The sensor. -/
structure GPSSensorNMEA where
  gpsParser : TinyGPS
  fixed : Bool
  impact : GpsImpact

def TinyGPS.feed (gps : TinyGPS) (line : List UInt8) : TinyGPS :=
  line.foldl (fun gps c => (gps.encode c).2) gps

/-- The impact with the variables of the parser. -/
def impactOf (gps : TinyGPS) : GpsImpact where
  date := gps.published .date
  time := gps.published .time / 100
  lon := gps.published .longitude
  lat := gps.published .latitude
  alt := gps.published .altitude
  hdop := if 0xFFFF < (gps.published .hdop).toInt then 0xFFFF
    else (gps.published .hdop).setWidth 16

/-- The latitude and the longitude are valid. -/
def TinyGPS.HasFix (gps : TinyGPS) : Prop :=
  gps.published .latitude ≠ gpsInvalidAngle ∧ gps.published .longitude ≠ gpsInvalidAngle

instance (gps : TinyGPS) : Decidable gps.HasFix := inferInstanceAs (Decidable (_ ∧ _))

/-- The body of the loop of `Sample`: the impact that it stores after a line, and the sensor. -/
def sample (sensor : GPSSensorNMEA) (line : List UInt8) : Option GpsImpact × GPSSensorNMEA :=
  let gps := sensor.gpsParser.feed line
  if gps.gllReady then
    if gps.HasFix then (some (impactOf gps),⟨gps.resetReady,true,impactOf gps⟩)
    else (none,⟨gps.resetReady,false,sensor.impact⟩)
  else (none,⟨gps,false,sensor.impact⟩)

/-- The sensor after its constructor. -/
def GPSSensorNMEA.new (ram : Field → BitVec 32) (buffer : Nat → UInt8) (impact : GpsImpact) :
    GPSSensorNMEA :=
  ⟨.new ram buffer,false,impact⟩

/-- What is stored after each line of the received bytes. -/
def impacts (sensor : GPSSensorNMEA) (stream : List UInt8) : List (Option GpsImpact) :=
  (Transition.runTotal sample sensor (linesOf stream)).1

end Pyrn.Gps
