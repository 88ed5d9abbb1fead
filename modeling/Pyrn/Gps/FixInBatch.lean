import Pyrn.Gps.Integrity
import Pyrn.Gps.Sentence

/-!
# The fix of a batch of lines

`Sample` writes the fix for every line: it says whether the last line of the batch was a GLL
sentence, while the impact stays what the last GLL sentence has made it.
-/

namespace Pyrn.Gps

open TinyGPS

def bytes (text : String) : List UInt8 := text.toList.map byte

/-- The fields of a GLL sentence with status A; receivers may append more of them. -/
structure Gll where
  lat : List UInt8
  ns : List UInt8
  lon : List UInt8
  ew : List UInt8
  time : List UInt8
  more : List (List UInt8)

/-- An angle with the letter of its hemisphere. -/
def hemisphere (text : List UInt8) (negative : UInt8) (angle : BitVec 32) : BitVec 32 :=
  if text.headD 0 = negative then -angle else angle

namespace Gll

variable (gll : Gll)

def fields : List (List UInt8) :=
  gll.lat :: gll.ns :: gll.lon :: gll.ew :: gll.time :: [byte 'A'] :: gll.more

/-- The sentence, with its checksum. -/
def sentence : Sentence where
  address := bytes "GPGLL"
  fields := gll.fields
  checksum := checksumText (bytes "GPGLL" :: gll.fields)

def latitude : BitVec 32 := hemisphere gll.ns (byte 'S') (parseDegrees (kept gll.lat))

def longitude : BitVec 32 := hemisphere gll.ew (byte 'W') (parseDegrees (kept gll.lon))

/-- A sentence with a position. -/
structure Valid : Prop where
  complete : gll.sentence.Complete
  lat : gll.lat ≠ []
  lon : gll.lon ≠ []
  latitude : gll.latitude ≠ gpsInvalidAngle
  longitude : gll.longitude ≠ gpsInvalidAngle

end Gll

/-- The type of the sentence is another one than GLL. -/
def Sentence.IsOther (sentence : Sentence) : Prop :=
  sentence.Complete ∧ ¬sentence.address <+: bytes "GPGLL"

/-- `GPSSensor::Loop`, with the lines that `Sample` finds. -/
def loop (sensor : GPSSensorNMEA) (lines : List (List UInt8)) : GPSSensorNMEA :=
  (Transition.runTotal sample { sensor with fixed := false } lines).2

section Fields

variable {pending : Field → BitVec 32} {type : SentenceType} {number : UInt8} {good : Bool}
  {f : Field}

/-- A field that sets a variable. -/
theorem next_set (n : Nat) (hn : number.toNat + type.base = n) (hpos : 0 < number.toNat)
    (htype : type ≠ .other) {value : List UInt8 → BitVec 32}
    (hchange : ∀ text, termChange n text = .set f (value text)) (text : List UInt8) :
    Scan.next ⟨pending,type,number,good⟩ text =
      ⟨if text = [] then pending else Function.update pending f (value (kept text)),type,
        number + 1,good⟩ := by
  rw [next_of_pos hpos,hn,hchange]
  by_cases htext : text = []
  · have hunused : ¬(kept text ≠ [] ∧ type ≠ .other) := fun h => h.1 (kept_eq_nil.mpr htext)
    rw [if_neg hunused,if_pos htext]
  · have hused : kept text ≠ [] ∧ type ≠ .other := ⟨fun h => htext (kept_eq_nil.mp h),htype⟩
    rw [if_pos hused,if_neg htext]
    rfl

/-- The letter of a hemisphere. -/
theorem next_hemisphere (n : Nat) (hn : number.toNat + type.base = n)
    (hpos : 0 < number.toNat) (htype : type ≠ .other) {negative : UInt8} (hnegative : negative ≠ 0)
    (hchange : ∀ text, termChange n text =
      if text.headD 0 = negative then .negate f else .none) (text : List UInt8) :
    Scan.next ⟨pending,type,number,good⟩ text =
      ⟨Function.update pending f (hemisphere text negative (pending f)),type,number + 1,
        good⟩ := by
  rw [next_of_pos hpos,hn,hchange,kept_headD,hemisphere]
  by_cases hletter : text.headD 0 = negative
  · have hused : kept text ≠ [] ∧ type ≠ .other := by
      refine ⟨fun h => hnegative ?_,htype⟩
      rw [← hletter,kept_eq_nil.mp h]
      rfl
    rw [if_pos hused,if_pos hletter,if_pos hletter]
    rfl
  · rw [if_neg hletter,if_neg hletter,Function.update_eq_self]
    split_ifs <;> rfl

/-- An angle and the letter of its hemisphere, one behind the other. -/
theorem next_angle (n : Nat) (hn : number.toNat + type.base = n)
    (hn' : (number + 1).toNat + type.base = n + 1) (hpos : 0 < number.toNat)
    (hpos' : 0 < (number + 1).toNat) (htype : type ≠ .other) {negative : UInt8}
    (hnegative : negative ≠ 0) (hangle : ∀ text, termChange n text = .set f (parseDegrees text))
    (hletter : ∀ text, termChange (n + 1) text =
      if text.headD 0 = negative then .negate f else .none)
    {angle : List UInt8} (hsome : angle ≠ []) (letter : List UInt8) :
    (Scan.next ⟨pending,type,number,good⟩ angle).next letter =
      ⟨Function.update pending f (hemisphere letter negative (parseDegrees (kept angle))),type,
        number + 1 + 1,good⟩ := by
  rw [next_set n hn hpos htype hangle,if_neg hsome,
    next_hemisphere (n + 1) hn' hpos' htype hnegative hletter,Function.update_self,
    Function.update_idem]

end Fields

/-- Behind the status nothing is read in a GLL sentence. -/
theorem termChange_gll {n : Nat} (hn : 306 < n) (text : List UInt8) :
    termChange n text = .none := by
  unfold termChange
  split <;> first | rfl | omega

/-- The variables that the fields of a GLL sentence set. -/
def Gll.pending (gll : Gll) (before : Field → BitVec 32) : Field → BitVec 32
  | .latitude => gll.latitude
  | .longitude => gll.longitude
  | .time => if gll.time = [] then before .time else parseDecimal (kept gll.time)
  | f => before f

theorem Gll.pending_eq_update (gll : Gll) (before : Field → BitVec 32) :
    let angles := Function.update (Function.update before .latitude gll.latitude) .longitude
      gll.longitude
    gll.pending before = if gll.time = [] then angles
      else Function.update angles .time (parseDecimal (kept gll.time)) := by
  intro angles
  have hangles (f : Field) (hf : f ≠ .time) : angles f = gll.pending before f := by
    cases f with
    | latitude => exact (Function.update_of_ne (by decide) _ _).trans (Function.update_self _ _ _)
    | longitude => exact Function.update_self _ _ _
    | time => exact absurd rfl hf
    | _ =>
      exact (Function.update_of_ne (by decide) _ _).trans
        (Function.update_of_ne (by decide) _ _)
  funext f
  by_cases hf : f = .time
  · subst hf
    have hbefore : angles .time = before .time :=
      (Function.update_of_ne (by decide) _ _).trans (Function.update_of_ne (by decide) _ _)
    rw [Gll.pending]
    split
    · exact hbefore.symm
    · rw [Function.update_self]
  · rw [← hangles f hf]
    split
    · rfl
    · rw [Function.update_of_ne hf]

/-- The terms of a GLL sentence up to its status. -/
theorem Gll.scan_status {gll : Gll} (h : gll.Valid) (pending : Field → BitVec 32) :
    ([bytes "GPGLL",gll.lat,gll.ns,gll.lon,gll.ew,gll.time,[byte 'A']].foldl Scan.next
      (.begin pending)) = ⟨gll.pending pending,.gpgll,7,true⟩ := by
  have haddress : (Scan.begin pending).next (bytes "GPGLL") = ⟨pending,.gpgll,1,false⟩ := by
    have htype : typeOf (kept (bytes "GPGLL")) = .gpgll := by decide
    rw [Scan.next,Scan.term,Scan.begin,if_pos rfl,htype]
    rfl
  let withLat := Function.update pending .latitude gll.latitude
  let withLon := Function.update withLat .longitude gll.longitude
  let withTime := if gll.time = [] then withLon
    else Function.update withLon .time (parseDecimal (kept gll.time))
  have hlatitude : (Scan.next ⟨pending,.gpgll,1,false⟩ gll.lat).next gll.ns =
      ⟨withLat,.gpgll,3,false⟩ :=
    next_angle 301 rfl rfl (by decide) (by decide) (by decide) (by decide) (fun _ => rfl)
      (fun _ => rfl) h.lat _
  have hlongitude : (Scan.next ⟨withLat,.gpgll,3,false⟩ gll.lon).next gll.ew =
      ⟨withLon,.gpgll,5,false⟩ :=
    next_angle 303 rfl rfl (by decide) (by decide) (by decide) (by decide) (fun _ => rfl)
      (fun _ => rfl) h.lon _
  have htime : Scan.next ⟨withLon,.gpgll,5,false⟩ gll.time = ⟨withTime,.gpgll,6,false⟩ :=
    next_set 305 rfl (by decide) (by decide) (fun _ => rfl) _
  have hstatus : Scan.next ⟨withTime,.gpgll,6,false⟩ [byte 'A'] = ⟨withTime,.gpgll,7,true⟩ := rfl
  have hpending : withTime = gll.pending pending := (gll.pending_eq_update pending).symm
  rw [List.foldl_cons,haddress,List.foldl_cons,List.foldl_cons,hlatitude,List.foldl_cons,
    List.foldl_cons,hlongitude,List.foldl_cons,htime,List.foldl_cons,hstatus,hpending,
    List.foldl_nil]

/-- What the terms of a GLL sentence set. -/
theorem Gll.scan_eq {gll : Gll} (h : gll.Valid) (pending : Field → BitVec 32) :
    (gll.sentence.scan pending).sentenceType = .gpgll ∧
      (gll.sentence.scan pending).gpsDataGood = true ∧
      (gll.sentence.scan pending).pending = gll.pending pending := by
  have hshort : gll.more.length + 6 < 256 := h.complete.short
  have hscan : gll.sentence.scan pending =
      gll.more.foldl Scan.next ⟨gll.pending pending,.gpgll,7,true⟩ := by
    have hterms : gll.sentence.terms =
        [bytes "GPGLL",gll.lat,gll.ns,gll.lon,gll.ew,gll.time,[byte 'A']] ++ gll.more := rfl
    rw [Sentence.scan,hterms,List.foldl_append,Gll.scan_status h]
  have hseven : (7 : UInt8).toNat = 7 := rfl
  have hpos : 0 < (7 : UInt8).toNat := Nat.zero_lt_succ 6
  have hnone (n : Nat) (text : List UInt8) (hlow : (7 : UInt8).toNat ≤ n) :
      termChange (n + SentenceType.gpgll.base) text = .none := by
    have hbase : SentenceType.gpgll.base = 300 := rfl
    exact termChange_gll (by omega) text
  obtain ⟨hpending,hgood⟩ := @foldl_of_none ⟨gll.pending pending,.gpgll,7,true⟩ gll.more
    hpos (by simp only; omega) (fun n text hlow _ => hnone n text hlow)
  rw [hscan]
  exact ⟨foldl_sentenceType hpos (by simp only; omega),hgood,hpending⟩

section Lines

variable {sensor : GPSSensorNMEA}

/-- A line with a GLL sentence that has a position: the impact shows what is pending then. -/
theorem sample_gll {gll : Gll} (h : gll.Valid) (sensor : GPSSensorNMEA) :
    ∃ gps : TinyGPS, (sample sensor gll.sentence.line).2.fixed = true ∧
      (sample sensor gll.sentence.line).2.impact = impactOf gps ∧
      ∀ f ∈ SentenceType.gpgll.fields,
        gps.published f = gll.pending sensor.gpsParser.pending f := by
  obtain ⟨htype,hgood,hpending⟩ := Gll.scan_eq h sensor.gpsParser.pending
  obtain ⟨valid,hvalid,-,hpublished,hready⟩ := feed_line h.complete sensor.gpsParser
  rw [hvalid rfl,hgood,htype,hpending] at hpublished
  have hshown (f : Field) (hf : f ∈ SentenceType.gpgll.fields) :
      (sensor.gpsParser.feed gll.sentence.line).published f =
        gll.pending sensor.gpsParser.pending f := by
    rw [hpublished]
    exact if_pos ⟨rfl,hf⟩
  have hgll : (sensor.gpsParser.feed gll.sentence.line).gllReady = true := by
    rw [hready,hvalid rfl,hgood,htype]
    exact Bool.or_true _
  have hfix : (sensor.gpsParser.feed gll.sentence.line).HasFix := by
    rw [HasFix,hshown .latitude (by decide),hshown .longitude (by decide)]
    exact ⟨h.latitude,h.longitude⟩
  refine ⟨sensor.gpsParser.feed gll.sentence.line,?_⟩
  rw [sample]
  simp only [if_pos hgll,if_pos hfix]
  exact ⟨trivial,trivial,hshown⟩

/-- Behind every line no GLL sentence is waiting. -/
theorem sample_gllReady (sensor : GPSSensorNMEA) (line : List UInt8) :
    (sample sensor line).2.gpsParser.gllReady = false := by
  rw [sample]
  by_cases hready : (sensor.gpsParser.feed line).gllReady = true
  · simp only [if_pos hready]
    split_ifs <;> rfl
  · simp only [if_neg hready]
    exact Bool.eq_false_iff.mpr hready

theorem prefix_of_typeOf {term : List UInt8} (h : typeOf term = .gpgll) :
    term <+: bytes "GPGLL" := by
  rw [typeOf] at h
  split_ifs at h with hrmc hgll
  exact gpsstrcmp_iff.mp hgll

theorem prefix_of_kept {address : List UInt8} (h : kept address <+: bytes "GPGLL") :
    address <+: bytes "GPGLL" := by
  have hlength := h.length_le
  have hfive : (bytes "GPGLL").length = 5 := rfl
  have hshort : address.length ≤ termSize - 1 := by
    rw [kept,List.length_take,hfive,termSize] at hlength
    rw [termSize]
    omega
  rwa [kept,List.take_of_length_le hshort] at h

/-- A line with a sentence of another type forgets the fix and keeps the impact. -/
theorem sample_other {sentence : Sentence} (h : sentence.IsOther)
    (hready : sensor.gpsParser.gllReady = false) :
    (sample sensor sentence.line).2.fixed = false ∧
      (sample sensor sentence.line).2.impact = sensor.impact := by
  obtain ⟨valid,-,-,-,hlater⟩ := feed_line h.1 sensor.gpsParser
  have htype : (sentence.scan sensor.gpsParser.pending).sentenceType ≠ .gpgll := by
    rw [scan_sentenceType h.1]
    exact fun hgll => h.2 (prefix_of_kept (prefix_of_typeOf hgll))
  have hnot : ¬(sensor.gpsParser.feed sentence.line).gllReady = true := by
    rw [hlater,hready,decide_eq_false htype,Bool.and_false]
    exact Bool.false_ne_true
  rw [sample]
  simp only [if_neg hnot]
  exact ⟨trivial,trivial⟩

/-- Lines with sentences of other types keep the impact, and the fix is lost with the first. -/
theorem runTotal_other {others : List Sentence} (hothers : ∀ sentence ∈ others, sentence.IsOther)
    (hready : sensor.gpsParser.gllReady = false) :
    (Transition.runTotal sample sensor (others.map Sentence.line)).2.impact = sensor.impact ∧
      (others ≠ [] → (Transition.runTotal sample sensor (others.map Sentence.line)).2.fixed =
        false) := by
  induction others generalizing sensor with
  | nil => exact ⟨rfl,fun h => absurd rfl h⟩
  | cons sentence others ih =>
    obtain ⟨hfixed,himpact⟩ := sample_other (hothers sentence List.mem_cons_self) hready
    obtain ⟨hkept,hlost⟩ := ih (fun later hmem => hothers later (List.mem_cons_of_mem _ hmem))
      (sample_gllReady sensor sentence.line)
    rw [List.map_cons,Transition.runTotal]
    refine ⟨hkept.trans himpact,fun _ => ?_⟩
    cases others with
    | nil => exact hfixed
    | cons next others => exact hlost (List.cons_ne_nil _ _)

end Lines

/-- Behind a batch with a valid GLL sentence, and sentences of other types behind it, the sensor
is fixed on its position exactly when it was the last line of the batch. -/
theorem fix_exact (sensor : GPSSensorNMEA) (before : List (List UInt8)) {gll : Gll}
    (hgll : gll.Valid) {after : List Sentence} (hafter : ∀ sentence ∈ after, sentence.IsOther) :
    let sampled := loop sensor (before ++ gll.sentence.line :: after.map Sentence.line)
    sampled.fixed = true ∧ sampled.impact.lat = gll.latitude ∧
        sampled.impact.lon = gll.longitude ↔
      after = [] := by
  intro sampled
  let reached := (Transition.runTotal sample { sensor with fixed := false } before).2
  let fixed := (sample reached gll.sentence.line).2
  have hsampled : sampled = (Transition.runTotal sample fixed (after.map Sentence.line)).2 := by
    rw [show sampled = (Transition.runTotal sample { sensor with fixed := false }
      (before ++ gll.sentence.line :: after.map Sentence.line)).2 from rfl,
      Transition.runTotal_append,Transition.runTotal]
  obtain ⟨gps,hfixed,hshows,hshown⟩ := sample_gll hgll reached
  obtain ⟨himpact,hlost⟩ := runTotal_other hafter (sample_gllReady reached gll.sentence.line)
  rw [hsampled]
  constructor
  · rintro ⟨hstill,-⟩
    by_contra hsome
    rw [hlost hsome] at hstill
    cases hstill
  · rintro rfl
    have hlat : fixed.impact.lat = gll.latitude := by
      rw [hshows]
      exact hshown .latitude (by decide)
    have hlon : fixed.impact.lon = gll.longitude := by
      rw [hshows]
      exact hshown .longitude (by decide)
    exact ⟨hfixed,hlat,hlon⟩

/-- A position in the south and the west. -/
def exampleGll : Gll where
  lat := bytes "4807.038"
  ns := bytes "S"
  lon := bytes "01131.000"
  ew := bytes "W"
  time := bytes "123519"
  more := []

theorem exampleGll_valid : exampleGll.Valid := by
  refine ⟨⟨?_,?_⟩,?_,?_,?_,?_⟩ <;> decide +kernel

theorem fix_exact_example : (loop zeroSensor [exampleGll.sentence.line]).fixed = true :=
  ((fix_exact zeroSensor [] exampleGll_valid (fun _ hmem => absurd hmem List.not_mem_nil)).mpr
    rfl).1

/-- A sentence about the satellites in view. -/
def exampleGsv : Sentence where
  address := bytes "GPGSV"
  fields := [bytes "1",bytes "1",bytes "00"]
  checksum := bytes "79"

/-- The fix of a valid sentence is lost behind a sentence of another type. -/
theorem fix_lost : exampleGll.Valid ∧ exampleGsv.IsOther ∧
    (loop zeroSensor [exampleGll.sentence.line,exampleGsv.line]).fixed = false := by
  refine ⟨exampleGll_valid,⟨⟨?_,?_⟩,?_⟩,?_⟩ <;> decide +kernel

end Pyrn.Gps
