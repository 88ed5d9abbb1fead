import Pyrn.Gps.FixInBatch
import Pyrn.Gps.SensorUbx

/-!
# The encodings of date and time

The NMEA sensor takes the digits of a time as they stand in a sentence, the UBX sensor multiplies
the binary fields of a reply.
-/

namespace Pyrn.Gps

open TinyGPS

/-- A date of this century and a time of day. -/
structure Utc where
  year : Nat
  month : Nat
  day : Nat
  hour : Nat
  min : Nat
  sec : Nat
  year_ge : 2000 ≤ year
  year_le : year ≤ 2099
  month_le : month ≤ 12
  day_le : day ≤ 31
  hour_lt : hour < 24
  min_lt : min < 60
  /-- A leap second is the sixtieth. -/
  sec_le : sec ≤ 60

/-- A decimal digit. -/
def asciiDigit (d : Nat) : UInt8 := byte (Nat.digitChar d)

def twoDigits (n : Nat) : List UInt8 := [asciiDigit (n / 10),asciiDigit (n % 10)]

namespace Utc

variable (utc : Utc)

/-- `ddmmyy`. -/
def dateText : List UInt8 :=
  twoDigits utc.day ++ (twoDigits utc.month ++ twoDigits (utc.year - 2000))

/-- `hhmmss.00`. -/
def timeText : List UInt8 :=
  twoDigits utc.hour ++ (twoDigits utc.min ++ (twoDigits utc.sec ++ bytes ".00"))

def date : Nat := utc.day * 10000 + utc.month * 100 + (utc.year - 2000)

def time : Nat := utc.hour * 10000 + utc.min * 100 + utc.sec

end Utc

section Digits

theorem isdigit_asciiDigit : ∀ d < 10, gpsisdigit (asciiDigit d) = true := by
  decide

theorem digit_asciiDigit : ∀ d < 10, digit (asciiDigit d) = BitVec.ofNat 32 d := by
  decide

/-- Two more digits of a number. -/
theorem foldl_twoDigits {n : Nat} (hn : n < 100) (value : Nat) :
    (twoDigits n).foldl (fun ret c => 10 * ret + digit c) (BitVec.ofNat 32 value) =
      BitVec.ofNat 32 (value * 100 + n) := by
  have hstep (d value : Nat) (hd : d < 10) : 10 * BitVec.ofNat 32 value + digit (asciiDigit d) =
      BitVec.ofNat 32 (10 * value + d) := by
    rw [digit_asciiDigit d hd,BitVec.ofNat_add,BitVec.ofNat_mul]
    rfl
  rw [twoDigits,List.foldl_cons,List.foldl_cons,List.foldl_nil,hstep _ _ (by omega),
    hstep _ _ (by omega)]
  congr 1
  omega

theorem all_twoDigits {n : Nat} (hn : n < 100) : ∀ c ∈ twoDigits n, gpsisdigit c = true := by
  intro c hc
  rcases List.mem_cons.mp hc with rfl | hc
  · exact isdigit_asciiDigit _ (by omega)
  · rw [List.mem_singleton.mp hc]
    exact isdigit_asciiDigit _ (by omega)

/-- Six digits, and what is behind them. -/
theorem gpsatol_digits {a b c : Nat} (ha : a < 100) (hb : b < 100) (hc : c < 100)
    {rest : List UInt8} (hrest : rest.takeWhile gpsisdigit = []) :
    gpsatol (twoDigits a ++ (twoDigits b ++ (twoDigits c ++ rest))) =
      BitVec.ofNat 32 (a * 10000 + b * 100 + c) := by
  rw [gpsatol,List.takeWhile_append_of_pos (all_twoDigits ha),
    List.takeWhile_append_of_pos (all_twoDigits hb),
    List.takeWhile_append_of_pos (all_twoDigits hc),hrest,List.append_nil,List.foldl_append,
    List.foldl_append]
  have hzero : (0 : BitVec 32) = BitVec.ofNat 32 0 := rfl
  rw [hzero,foldl_twoDigits ha,foldl_twoDigits hb,foldl_twoDigits hc]
  congr 1
  omega

theorem dropWhile_digits {a b c : Nat} (ha : a < 100) (hb : b < 100) (hc : c < 100)
    {rest : List UInt8} (hrest : rest.dropWhile gpsisdigit = rest) :
    (twoDigits a ++ (twoDigits b ++ (twoDigits c ++ rest))).dropWhile gpsisdigit = rest := by
  rw [List.dropWhile_append_of_pos (all_twoDigits ha),
    List.dropWhile_append_of_pos (all_twoDigits hb),
    List.dropWhile_append_of_pos (all_twoDigits hc),hrest]

theorem asciiDigit_ne_minus : ∀ d < 10, asciiDigit d ≠ byte '-' := by
  decide

/-- A number with two zeros behind its point. -/
theorem parseDecimal_hundredths {term : List UInt8} (hpositive : ¬term.head? = some (byte '-'))
    (hpoint : term.dropWhile gpsisdigit = bytes ".00") :
    parseDecimal term = 100 * gpsatol term := by
  have hbytes : bytes ".00" = [byte '.',byte '0',byte '0'] := rfl
  have hzero : gpsisdigit (byte '0') = true := by decide
  have hdigit : digit (byte '0') = 0 := by decide
  simp [parseDecimal,hpositive,hpoint,hbytes,hzero,hdigit]

variable (utc : Utc)

theorem gpsatol_dateText : gpsatol (kept utc.dateText) = BitVec.ofNat 32 utc.date := by
  have hyear := utc.year_le
  have hmonth := utc.month_le
  have hday := utc.day_le
  have hkept : kept utc.dateText =
      twoDigits utc.day ++ (twoDigits utc.month ++ (twoDigits (utc.year - 2000) ++ [])) := rfl
  rw [hkept,gpsatol_digits (by omega) (by omega) (by omega) rfl]
  rfl

theorem parseDecimal_timeText :
    parseDecimal (kept utc.timeText) = BitVec.ofNat 32 (100 * utc.time) := by
  have hhour := utc.hour_lt
  have hmin := utc.min_lt
  have hsec := utc.sec_le
  have hkept : kept utc.timeText = twoDigits utc.hour ++
      (twoDigits utc.min ++ (twoDigits utc.sec ++ bytes ".00")) := rfl
  have hdigits : gpsatol (kept utc.timeText) = BitVec.ofNat 32 utc.time := by
    rw [hkept,gpsatol_digits (by omega) (by omega) (by omega) (by decide)]
    rfl
  have hpoint : (kept utc.timeText).dropWhile gpsisdigit = bytes ".00" := by
    rw [hkept,dropWhile_digits (by omega) (by omega) (by omega) (by decide)]
  have hpositive : ¬(kept utc.timeText).head? = some (byte '-') := by
    intro hminus
    exact asciiDigit_ne_minus (utc.hour / 10) (by omega) (Option.some.inj hminus)
  rw [parseDecimal_hundredths hpositive hpoint,hdigits,BitVec.ofNat_mul]
  rfl

end Digits

/-- The fields of an RMC sentence with status A, besides its time and its date. -/
structure Rmc where
  lat : List UInt8
  ns : List UInt8
  lon : List UInt8
  ew : List UInt8
  speed : List UInt8
  course : List UInt8
  more : List (List UInt8)

/-- The sentence for a date and a time. -/
def Rmc.sentence (rmc : Rmc) (utc : Utc) : Sentence :=
  let address := bytes "GPRMC"
  let fields := utc.timeText :: [byte 'A'] :: rmc.lat :: rmc.ns :: rmc.lon :: rmc.ew ::
    rmc.speed :: rmc.course :: utc.dateText :: rmc.more
  ⟨address,fields,checksumText (address :: fields)⟩

/-- A sentence of plain texts. The fields behind the date are few: the hundredth of them would be
taken for one of another type. -/
structure Rmc.Valid (rmc : Rmc) (utc : Utc) : Prop where
  complete : (rmc.sentence utc).Complete
  more : rmc.more.length ≤ 90

section Sentences

/-- Behind the date nothing is read in an RMC sentence. -/
theorem termChange_rmc {n : Nat} (hlow : 109 < n) (hhigh : n < 201) (text : List UInt8) :
    termChange n text = .none := by
  unfold termChange
  split <;> first | rfl | omega

/-- The date that is pending behind an RMC sentence. -/
theorem Rmc.scan_date {rmc : Rmc} {utc : Utc} (h : rmc.Valid utc)
    (pending : Field → BitVec 32) :
    ((rmc.sentence utc).scan pending).pending .date = BitVec.ofNat 32 utc.date := by
  have haddress : (Scan.begin pending).next (bytes "GPRMC") = ⟨pending,.gprmc,1,false⟩ := by
    have htype : typeOf (kept (bytes "GPRMC")) = .gprmc := by decide
    rw [Scan.next,Scan.term,Scan.begin,if_pos rfl,htype]
    rfl
  let front := [utc.timeText,[byte 'A'],rmc.lat,rmc.ns,rmc.lon,rmc.ew,rmc.speed,rmc.course]
  have hone : 0 < (1 : UInt8).toNat := Nat.zero_lt_one
  have hfew : (1 : UInt8).toNat + front.length < 256 := by
    show (1 : UInt8).toNat + 8 < 256
    decide
  have htype : (front.foldl Scan.next ⟨pending,.gprmc,1,false⟩).sentenceType = .gprmc :=
    foldl_sentenceType hone hfew.le
  have hnumber : (front.foldl Scan.next ⟨pending,.gprmc,1,false⟩).termNumber = 9 :=
    UInt8.toNat_inj.mp (foldl_toNat hfew)
  have hterms : (rmc.sentence utc).terms =
      bytes "GPRMC" :: (front ++ utc.dateText :: rmc.more) := rfl
  rw [Sentence.scan,hterms,List.foldl_cons,haddress,List.foldl_append,List.foldl_cons]
  cases hfront : front.foldl Scan.next ⟨pending,.gprmc,1,false⟩ with
  | mk p type number good =>
    rw [hfront] at htype hnumber
    obtain rfl : type = .gprmc := htype
    obtain rfl : number = 9 := hnumber
    have hdate : Scan.next ⟨p,.gprmc,9,good⟩ utc.dateText =
        ⟨Function.update p .date (gpsatol (kept utc.dateText)),.gprmc,10,good⟩ := by
      have hsome : utc.dateText ≠ [] := List.cons_ne_nil _ _
      rw [next_set 109 rfl (by decide) (by decide) (fun _ => rfl),if_neg hsome]
      rfl
    have hmore := h.more
    have hten : (10 : UInt8).toNat = 10 := rfl
    have hbase : SentenceType.gprmc.base = 100 := rfl
    obtain ⟨hpending,-⟩ := @foldl_of_none
      ⟨Function.update p .date (gpsatol (kept utc.dateText)),.gprmc,10,good⟩ rmc.more
      (Nat.zero_lt_succ 9) (by simp only; omega) (by
        intro n text hlow hhigh
        simp only at hlow hhigh ⊢
        exact termChange_rmc (by omega) (by omega) text)
    have hset : Function.update p .date (gpsatol (kept utc.dateText)) .date =
        BitVec.ofNat 32 utc.date := by rw [Function.update_self,gpsatol_dateText]
    rw [hdate,hpending]
    exact hset

/-- What is pending behind a line stays when the sample has been taken. -/
theorem sample_pending (sensor : GPSSensorNMEA) (line : List UInt8) :
    (sample sensor line).2.gpsParser.pending = (sensor.gpsParser.feed line).pending := by
  rw [sample]
  split_ifs <;> rfl

/-- The NMEA sensor stores the digits of the date and the time. -/
theorem loop_encodes {rmc : Rmc} {gll : Gll} {utc : Utc} (hrmc : rmc.Valid utc)
    (hgll : gll.Valid) (htime : gll.time = utc.timeText) (sensor : GPSSensorNMEA)
    (before : List (List UInt8)) :
    (loop sensor (before ++ [(rmc.sentence utc).line,gll.sentence.line])).impact.date =
        BitVec.ofNat 32 utc.date ∧
      (loop sensor (before ++ [(rmc.sentence utc).line,gll.sentence.line])).impact.time =
        BitVec.ofNat 32 utc.time := by
  let reached := (Transition.runTotal sample { sensor with fixed := false } before).2
  let dated := (sample reached (rmc.sentence utc).line).2
  have hloop : loop sensor (before ++ [(rmc.sentence utc).line,gll.sentence.line]) =
      (sample dated gll.sentence.line).2 := by
    rw [loop,Transition.runTotal_append]
    rfl
  obtain ⟨-,-,hpending,-⟩ := feed_line hrmc.complete reached.gpsParser
  obtain ⟨gps,-,himpact,hshown⟩ := sample_gll hgll dated
  have hdated : dated.gpsParser.pending .date = BitVec.ofNat 32 utc.date := by
    rw [show dated.gpsParser.pending = _ from sample_pending reached _,hpending]
    exact Rmc.scan_date hrmc _
  have hdate : gps.published .date = BitVec.ofNat 32 utc.date :=
    (hshown .date (by decide)).trans hdated
  have hclock : gps.published .time = BitVec.ofNat 32 (100 * utc.time) := by
    have hsome : ¬gll.time = [] := by
      rw [htime]
      exact List.cons_ne_nil _ _
    rw [hshown .time (by decide),Gll.pending,if_neg hsome,htime,parseDecimal_timeText]
  rw [hloop,himpact]
  refine ⟨hdate,?_⟩
  have hbound : utc.time < 240000 := by
    have hhour := utc.hour_lt
    have hmin := utc.min_lt
    have hsec := utc.sec_le
    rw [Utc.time]
    omega
  rw [impactOf,hclock]
  have hhundred : (100 : BitVec 32).toNat = 100 := rfl
  apply BitVec.eq_of_toNat_eq
  rw [BitVec.toNat_udiv,BitVec.toNat_ofNat,BitVec.toNat_ofNat,hhundred,
    Nat.mod_eq_of_lt (by omega),Nat.mod_eq_of_lt (by omega),
    Nat.mul_div_cancel_left _ (by decide)]

end Sentences

namespace Ubx

/-- A reply to the poll of `GetTime`. -/
def timeUtcReply (iTOW tAcc nano : Nat) (utc : Utc) (valid : UInt8) : List UInt8 :=
  let msg := [0x01,0x21,20,0] ++ LittleEndian.toBytes 4 iTOW ++ LittleEndian.toBytes 4 tAcc ++
    LittleEndian.toBytes 4 nano ++ LittleEndian.toBytes 2 utc.year ++
    [UInt8.ofNat utc.month,UInt8.ofNat utc.day,UInt8.ofNat utc.hour,UInt8.ofNat utc.min,
      UInt8.ofNat utc.sec,valid]
  [0xB5,0x62] ++ msg ++ [(computeCheckSum msg).1,(computeCheckSum msg).2]

/-- The date of the UBX sensor. -/
def date (utc : Utc) : Nat :=
  (if 2000 < utc.year then utc.year - 2000 else utc.year) + utc.month * 100 + utc.day * 10000

/-- The time of the UBX sensor. -/
def time (utc : Utc) : Nat := utc.sec * utc.min * utc.hour

theorem readTime_reply (iTOW tAcc nano : Nat) (utc : Utc) (valid : UInt8) :
    readTime (timeUtcReply iTOW tAcc nano utc valid) =
      ⟨BitVec.ofNat 32 (date utc),BitVec.ofNat 32 (time utc)⟩ := by
  have hyear_le := utc.year_le
  have hmonth_le := utc.month_le
  have hday_le := utc.day_le
  have hhour_lt := utc.hour_lt
  have hmin_lt := utc.min_lt
  have hsec_le := utc.sec_le
  have hword (width : Nat) {value : Nat} (h : value < 256 ^ width) :
      LittleEndian.ofBytes (LittleEndian.toBytes width value) = value :=
    LittleEndian.ofBytes_toBytes_of_lt h
  have hyear : payload (timeUtcReply iTOW tAcc nano utc valid) 12 2 = utc.year :=
    hword 2 (by omega)
  have hmonth : payload (timeUtcReply iTOW tAcc nano utc valid) 14 1 = utc.month :=
    hword 1 (by omega)
  have hday : payload (timeUtcReply iTOW tAcc nano utc valid) 15 1 = utc.day :=
    hword 1 (by omega)
  have hhour : payload (timeUtcReply iTOW tAcc nano utc valid) 16 1 = utc.hour :=
    hword 1 (by omega)
  have hmin : payload (timeUtcReply iTOW tAcc nano utc valid) 17 1 = utc.min :=
    hword 1 (by omega)
  have hsec : payload (timeUtcReply iTOW tAcc nano utc valid) 18 1 = utc.sec :=
    hword 1 (by omega)
  rw [readTime,hyear,hmonth,hday,hhour,hmin,hsec]
  rfl

/-- The UBX sensor multiplies the fields of the time. -/
theorem getTime_encodes {recvBuff : List UInt8} (hsize : recvBuff.length = gpsRecvBuff)
    {line : List Look} {iTOW tAcc nano : Nat} {utc : Utc} {valid : UInt8}
    (harrived : arrived none line = (timeUtcReply iTOW tAcc nano utc valid,true)) :
    getTime recvBuff line =
      .accepted ⟨BitVec.ofNat 32 (date utc),BitVec.ofNat 32 (time utc)⟩ := by
  have hlength : (timeUtcReply iTOW tAcc nano utc valid).length = 28 := rfl
  have hfits : (timeUtcReply iTOW tAcc nano utc valid).length ≤ gpsRecvBuff := by
    rw [hlength]
    decide
  have hlong : 25 ≤ (timeUtcReply iTOW tAcc nano utc valid).length := by
    rw [hlength]
    decide
  rw [← readTime_reply iTOW tAcc nano utc valid]
  exact ask_accepted hsize harrived hfits rfl (fun rest => readTime_append _ rest hlong) rfl

end Ubx

section Encodings

variable {utc : Utc}

/-- The dates are encoded alike from the second year of the century on. -/
theorem date_eq_iff : Ubx.date utc = utc.date ↔ utc.year ≠ 2000 := by
  have hyear := utc.year_ge
  unfold Ubx.date Utc.date
  by_cases hlater : 2000 < utc.year
  · rw [if_pos hlater]
    omega
  · rw [if_neg hlater]
    omega

/-- A product of hours, minutes and seconds has the decimal digits of the time at midnight
only. -/
theorem time_eq_iff : Ubx.time utc = utc.time ↔
    utc.hour = 0 ∧ utc.min = 0 ∧ utc.sec = 0 := by
  have hmin := utc.min_lt
  have hsec := utc.sec_le
  rw [Ubx.time,Utc.time]
  constructor
  · intro heq
    have hsmall : utc.sec * utc.min * utc.hour ≤ 60 * 60 * utc.hour :=
      Nat.mul_le_mul_right _ (Nat.mul_le_mul hsec hmin.le)
    have hhour : utc.hour = 0 := by omega
    rw [hhour] at heq
    omega
  · rintro ⟨hhour,hmin,hsec⟩
    rw [hhour,hmin,hsec]

theorem ofNat_inj {m n : Nat} (hm : m < 2 ^ 32) (hn : n < 2 ^ 32) :
    BitVec.ofNat 32 m = BitVec.ofNat 32 n ↔ m = n := by
  rw [← BitVec.toNat_inj,BitVec.toNat_ofNat,BitVec.toNat_ofNat,Nat.mod_eq_of_lt hm,
    Nat.mod_eq_of_lt hn]

/-- No date and no time leaves the range of its variable. -/
theorem encodings_lt (utc : Utc) : Ubx.date utc < 2 ^ 32 ∧ utc.date < 2 ^ 32 ∧
    Ubx.time utc < 2 ^ 32 ∧ utc.time < 2 ^ 32 := by
  have hyear := utc.year_le
  have hmonth := utc.month_le
  have hday := utc.day_le
  have hhour := utc.hour_lt
  have hmin := utc.min_lt
  have hsec := utc.sec_le
  have hsmall : utc.sec * utc.min * utc.hour ≤ 60 * 60 * 24 :=
    Nat.mul_le_mul (Nat.mul_le_mul hsec hmin.le) hhour.le
  unfold Ubx.date Utc.date Ubx.time Utc.time
  refine ⟨?_,by omega,by omega,by omega⟩
  split_ifs <;> omega

end Encodings

/-- For every date and time, the reply that tells it and the sentences that carry it give the two
sensors the same pair exactly at midnight, and not in the first year of the century. -/
theorem encoding_exact {utc : Utc} {rmc : Rmc} {gll : Gll} (hrmc : rmc.Valid utc)
    (hgll : gll.Valid) (htime : gll.time = utc.timeText) {recvBuff : List UInt8}
    (hsize : recvBuff.length = gpsRecvBuff) {line : List Ubx.Look} {iTOW tAcc nano : Nat}
    {valid : UInt8}
    (harrived : Ubx.arrived none line = (Ubx.timeUtcReply iTOW tAcc nano utc valid,true))
    (sensor : GPSSensorNMEA) (before : List (List UInt8)) :
    let impact := (loop sensor
      (before ++ [(rmc.sentence utc).line,gll.sentence.line])).impact
    Ubx.getTime recvBuff line = .accepted ⟨impact.date,impact.time⟩ ↔
      utc.year ≠ 2000 ∧ utc.hour = 0 ∧ utc.min = 0 ∧ utc.sec = 0 := by
  intro impact
  obtain ⟨hdate,hclock⟩ := loop_encodes hrmc hgll htime sensor before
  obtain ⟨hdateUbx,hdateNmea,htimeUbx,htimeNmea⟩ := encodings_lt utc
  rw [Ubx.getTime_encodes hsize harrived,show impact.date = _ from hdate,
    show impact.time = _ from hclock,Ubx.Reply.accepted.injEq,Ubx.UtcTime.mk.injEq,
    ofNat_inj hdateUbx hdateNmea,ofNat_inj htimeUbx htimeNmea,date_eq_iff,time_eq_iff]

/-- A day, from some time on. -/
def exampleUtc (hour min sec : Nat) (hhour : hour < 24) (hmin : min < 60) (hsec : sec ≤ 60) :
    Utc where
  year := 2016
  month := 5
  day := 18
  hour := hour
  min := min
  sec := sec
  year_ge := by omega
  year_le := by omega
  month_le := by omega
  day_le := by omega
  hour_lt := hhour
  min_lt := hmin
  sec_le := hsec

def midnight : Utc := exampleUtc 0 0 0 (by omega) (by omega) (by omega)

def afterMidnight : Utc := exampleUtc 0 1 0 (by omega) (by omega) (by omega)

def evening : Utc := exampleUtc 21 59 55 (by omega) (by omega) (by omega)

/-- The sentences of a position. -/
def exampleRmc : Rmc where
  lat := bytes "4807.038"
  ns := bytes "N"
  lon := bytes "01131.000"
  ew := bytes "E"
  speed := bytes "022.4"
  course := bytes "084.4"
  more := []

def timedGll (utc : Utc) : Gll := { exampleGll with time := utc.timeText }

/-- The bytes of a reply, and the silence behind them. -/
def replyLine (utc : Utc) : List Ubx.Look :=
  (Ubx.timeUtcReply 0 0 0 utc 7).map .readable ++ Ubx.silence

theorem encoding_exact_example : Ubx.getTime Ubx.zeroBuff (replyLine midnight) =
    .accepted ⟨(loop zeroSensor [(exampleRmc.sentence midnight).line,
      (timedGll midnight).sentence.line]).impact.date,(loop zeroSensor
      [(exampleRmc.sentence midnight).line,(timedGll midnight).sentence.line]).impact.time⟩ := by
  have hrmc : exampleRmc.Valid midnight := by
    refine ⟨⟨?_,?_⟩,?_⟩ <;> decide +kernel
  have hgll : (timedGll midnight).Valid := by
    refine ⟨⟨?_,?_⟩,?_,?_,?_,?_⟩ <;> decide +kernel
  have hsize : Ubx.zeroBuff.length = gpsRecvBuff := List.length_replicate
  have harrived : Ubx.arrived none (replyLine midnight) =
      (Ubx.timeUtcReply 0 0 0 midnight 7,true) := by decide +kernel
  have hmidnight : midnight.year ≠ 2000 ∧ midnight.hour = 0 ∧ midnight.min = 0 ∧
      midnight.sec = 0 := by decide
  have hexact := encoding_exact hrmc hgll rfl hsize harrived zeroSensor []
  simp only [List.nil_append] at hexact
  exact hexact.mpr hmidnight

/-- In the evening the two sensors disagree on the time, and the UBX sensor does not tell a minute
past midnight from midnight. -/
theorem encoding_differs :
    Ubx.getTime Ubx.zeroBuff (replyLine evening) = .accepted ⟨180516,68145⟩ ∧
      (loop zeroSensor [(exampleRmc.sentence evening).line,
        (timedGll evening).sentence.line]).impact.date = 180516 ∧
      (loop zeroSensor [(exampleRmc.sentence evening).line,
        (timedGll evening).sentence.line]).impact.time = 215955 ∧
      Ubx.getTime Ubx.zeroBuff (replyLine afterMidnight) =
        Ubx.getTime Ubx.zeroBuff (replyLine midnight) := by
  refine ⟨?_,?_,?_,?_⟩ <;> decide +kernel

end Pyrn.Gps
