import Mathlib.Data.BitVec
import Mathlib.Logic.Function.Basic

/-!
# The NMEA parser

`TinyGPS` reads a sentence byte by byte. The terms of a sentence are stored in pending variables
as they come, and copied to the published ones when a checksum term matches.
-/

namespace Pyrn.Gps

/-- A variable that a sentence carries. -/
inductive Field
  | time
  | date
  | latitude
  | longitude
  | altitude
  | speed
  | course
  | hdop
  | satCount
  deriving DecidableEq, Repr

inductive SentenceType
  | gpgll
  | gpgga
  | gprmc
  | gpgsv
  | other
  deriving DecidableEq, Repr

/-- The variables that a sentence publishes. -/
def SentenceType.fields : SentenceType → List Field
  | .gpgll => [.time,.date,.latitude,.longitude,.speed,.course]
  | .gprmc => [.time,.date,.latitude,.longitude,.speed,.course]
  | .gpgga => [.altitude,.time,.latitude,.longitude,.hdop,.satCount]
  | .gpgsv => []
  | .other => []

/-- The offset of the cases of a sentence type. -/
def SentenceType.base : SentenceType → Nat
  | .gpgga => 200
  | .gprmc => 100
  | .gpgll => 300
  | .gpgsv => 0
  | .other => 0

/-- The parser. The `_new_` variables are the pending ones. -/
structure TinyGPS where
  published : Field → BitVec 32
  pending : Field → BitVec 32
  parity : UInt8
  isChecksumTerm : Bool
  term : Nat → UInt8
  sentenceType : SentenceType
  termNumber : UInt8
  termOffset : Nat
  gpsDataGood : Bool
  rmcReady : Bool
  ggaReady : Bool
  gsvReady : Bool
  gllReady : Bool

def gpsInvalidAngle : BitVec 32 := 999999999

/-- The values that the constructor gives to the published variables. -/
def invalid : Field → BitVec 32
  | .time => 0xFFFFFFFF
  | .date => 0
  | .latitude => gpsInvalidAngle
  | .longitude => gpsInvalidAngle
  | .altitude => 999999999
  | .speed => 999999999
  | .course => gpsInvalidAngle
  | .hdop => 0
  | .satCount => 0

def byte (c : Char) : UInt8 := c.toUInt8

/-- The size of the buffer of a term. -/
def termSize : Nat := 15

/-- A new parser. The pending variables and the buffer of the term, but for its first byte, are
not initialised. -/
def TinyGPS.new (ram : Field → BitVec 32) (buffer : Nat → UInt8) : TinyGPS where
  published := invalid
  pending := ram
  parity := 0
  isChecksumTerm := false
  term := Function.update buffer 0 0
  sentenceType := .other
  termNumber := 0
  termOffset := 0
  gpsDataGood := false
  rmcReady := false
  ggaReady := false
  gsvReady := false
  gllReady := false

section Values

def gpsisdigit (c : UInt8) : Bool := byte '0' ≤ c && c ≤ byte '9'

/-- The value of a digit in an expression of 32 bits. -/
def digit (c : UInt8) : BitVec 32 := BitVec.ofNat 32 c.toNat - BitVec.ofNat 32 (byte '0').toNat

def gpsatol (str : List UInt8) : BitVec 32 :=
  (str.takeWhile gpsisdigit).foldl (fun ret c => 10 * ret + digit c) 0

def parseDecimal (term : List UInt8) : BitVec 32 :=
  let isneg := term.head? = some (byte '-')
  let p := if isneg then term.tail else term
  let ret := 100 * gpsatol p
  let ret := match p.dropWhile gpsisdigit with
    | point :: first :: more =>
        if point = byte '.' ∧ gpsisdigit first = true then
          let ret := ret + 10 * digit first
          match more with
          | second :: _ => if gpsisdigit second then ret + digit second else ret
          | [] => ret
        else ret
    | _ => ret
  if isneg then -ret else ret

/-- The digits behind the point of an angle, from a factor on. -/
def tenkMinutes : List UInt8 → BitVec 32 → BitVec 32 → BitVec 32
  | [], _, minutes => minutes
  | c :: digits, mult, minutes => tenkMinutes digits (mult / 10) (minutes + mult * digit c)

def parseDegrees (term : List UInt8) : BitVec 32 :=
  let left := gpsatol term
  let minutes := left % 100 * 10000
  let minutes := match term.dropWhile gpsisdigit with
    | point :: more =>
        if point = byte '.' then tenkMinutes (more.takeWhile gpsisdigit) 1000 minutes else minutes
    | [] => minutes
  left / 100 * 100000 + minutes / 6

def fromHex (a : UInt8) : Int :=
  if byte 'A' ≤ a ∧ a ≤ byte 'F' then a.toNat - (byte 'A').toNat + 10
  else if byte 'a' ≤ a ∧ a ≤ byte 'f' then a.toNat - (byte 'a').toNat + 10
  else a.toNat - (byte '0').toNat

/-- `gpsstrcmp`: the two strings are taken as equal when the first one ends before they
differ. -/
def gpsstrcmp : List UInt8 → List UInt8 → Bool
  | [], _ => true
  | _ :: _, [] => false
  | a :: str1, b :: str2 => a = b && gpsstrcmp str1 str2

end Values

namespace TinyGPS

variable (gps : TinyGPS)

/-- The string in the buffer of the term, up to its zero byte. -/
def text : List UInt8 := ((List.range termSize).map gps.term).takeWhile (· ≠ 0)

/-- The checksum that a term gives. Both its characters are read, however long it is. -/
def checksum : UInt8 := UInt8.ofInt (16 * fromHex (gps.term 0) + fromHex (gps.term 1))

/-- A sentence with a matching checksum and valid data. -/
def publish : TinyGPS :=
  { gps with
    published := fun f =>
      if f ∈ gps.sentenceType.fields then gps.pending f else gps.published f
    gllReady := gps.gllReady || gps.sentenceType = .gpgll
    rmcReady := gps.rmcReady || gps.sentenceType = .gprmc
    ggaReady := gps.ggaReady || gps.sentenceType = .gpgga
    gsvReady := gps.gsvReady || gps.sentenceType = .gpgsv }

/-- The first term gives the type of the sentence. -/
def typeOf (term : List UInt8) : SentenceType :=
  if gpsstrcmp term ("GPRMC".toList.map byte) then .gprmc
  else if gpsstrcmp term ("GPGLL".toList.map byte) then .gpgll
  else if gpsstrcmp term ("GPGGA".toList.map byte) then .gpgga
  else if gpsstrcmp term ("GPGSV".toList.map byte) then .gpgsv
  else .other

/-- What a term does: a pending variable is set or negated, or the data is found good or bad. -/
inductive Change
  | set (f : Field) (value : BitVec 32)
  | negate (f : Field)
  | dataGood (good : Bool)
  | none
  deriving DecidableEq

/-- The cases of the terms. -/
def termChange (term : Nat) (text : List UInt8) : Change :=
  let first := text.headD 0
  match term with
  | 101 | 201 | 305 => .set .time (parseDecimal text)
  | 102 | 306 => .dataGood (first = byte 'A')
  | 103 | 202 | 301 => .set .latitude (parseDegrees text)
  | 104 | 203 | 302 => if first = byte 'S' then .negate .latitude else .none
  | 105 | 204 | 303 => .set .longitude (parseDegrees text)
  | 106 | 205 | 304 => if first = byte 'W' then .negate .longitude else .none
  | 107 => .set .speed (parseDecimal text)
  | 108 => .set .course (parseDecimal text)
  | 109 => .set .date (gpsatol text)
  | 206 => .dataGood (byte '0' < first)
  | 207 => .set .satCount (parseDecimal text)
  | 208 => .set .hdop (parseDecimal text)
  | 209 => .set .altitude (parseDecimal text)
  | _ => .none

def change : Change → TinyGPS
  | .set f value => { gps with pending := Function.update gps.pending f value }
  | .negate f => { gps with pending := Function.update gps.pending f (-gps.pending f) }
  | .dataGood good => { gps with gpsDataGood := good }
  | .none => gps

/-- `term_complete`. -/
def termComplete : Bool × TinyGPS :=
  if gps.isChecksumTerm then
    if gps.checksum = gps.parity then
      if gps.gpsDataGood then (true,gps.publish) else (false,gps)
    else (false,gps)
  else if gps.termNumber = 0 then (false,{ gps with sentenceType := typeOf gps.text })
  else if gps.sentenceType ≠ .other ∧ gps.term 0 ≠ 0 then
    (false,gps.change (termChange (gps.termNumber.toNat + gps.sentenceType.base) gps.text))
  else (false,gps)

/-- The term behind a character. -/
def nextTerm (c : UInt8) : TinyGPS :=
  { gps with
    termNumber := gps.termNumber + 1
    termOffset := 0
    isChecksumTerm := c = byte '*' }

/-- The end of a term. -/
def endTerm (c : UInt8) : Bool × TinyGPS :=
  if gps.termOffset < termSize then
    let completed := termComplete { gps with term := Function.update gps.term gps.termOffset 0 }
    (completed.1,completed.2.nextTerm c)
  else (false,gps.nextTerm c)

/-- The beginning of a sentence. -/
def beginSentence : TinyGPS :=
  { gps with
    termNumber := 0
    termOffset := 0
    parity := 0
    sentenceType := .other
    isChecksumTerm := false
    gpsDataGood := false }

/-- A character of a term is stored. -/
def storeChar (c : UInt8) : TinyGPS :=
  { gps with
    term := Function.update gps.term gps.termOffset c
    termOffset := gps.termOffset + 1 }

def addParity (c : UInt8) : TinyGPS := { gps with parity := gps.parity ^^^ c }

/-- An ordinary character. -/
def addChar (c : UInt8) : TinyGPS :=
  let gps := if gps.termOffset < termSize - 1 then gps.storeChar c else gps
  if gps.isChecksumTerm then gps else gps.addParity c

/-- `encode`: whether a sentence has just been validated, and the parser after a character. -/
def encode (c : UInt8) : Bool × TinyGPS :=
  if c = byte ',' then (gps.addParity c).endTerm c
  else if c = byte '\r' ∨ c = byte '\n' ∨ c = byte '*' then endTerm gps c
  else if c = byte '$' then (false,gps.beginSentence)
  else (false,gps.addChar c)

def resetReady : TinyGPS :=
  { gps with rmcReady := false, ggaReady := false, gsvReady := false, gllReady := false }

end TinyGPS

end Pyrn.Gps
