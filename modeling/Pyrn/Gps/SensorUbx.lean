import Mathlib.Data.BitVec
import Pyrn.Framework.Buffer
import Pyrn.Framework.LittleEndian
import Pyrn.Gps.SensorNmea

/-!
# The UBX sensor

A poll is written to the buffer that the reply is received in, and the reply is looked for in that
buffer, whatever part of it has been received.
-/

namespace Pyrn.Gps.Ubx

/-- `ComputeCheckSum`. -/
def computeCheckSum (buffer : List UInt8) : UInt8 × UInt8 :=
  buffer.foldl (fun checkSum c =>
    (checkSum.1 + c,checkSum.2 + (checkSum.1 + c))) (0,0)

/-- `FillHeader` and `AppendCheckSum` for a message without a payload. -/
def pollFrame (msgClass msgId : UInt8) : List UInt8 :=
  let hdr := [msgClass,msgId,0,0]
  [0xB5,0x62] ++ hdr ++ [(computeCheckSum hdr).1,(computeCheckSum hdr).2]

/-- The buffer behind `PollCmd`. -/
def pollCmd (msgClass msgId : UInt8) (recvBuff : List UInt8) : List UInt8 :=
  pollFrame msgClass msgId ++ recvBuff.drop 8

/-- What the loop of `ReceiveFrame` finds: a byte on the line, or none, and then whether the
deadline is over. -/
inductive Look
  | readable (c : UInt8)
  | silent (late : Bool)
  deriving DecidableEq, Repr

/-- The local variables of `ReceiveFrame`, and the buffer. -/
structure Reception where
  recvBuff : List UInt8
  i : Nat
  j : Nat
  reading : Bool
  deriving DecidableEq, Repr

/-- What comes of `ReceiveFrame`: it is still looking, it has written behind the buffer, or it
returns. -/
inductive Received
  | looking (reception : Reception)
  | fault
  | returned (n : Nat) (recvBuff : List UInt8)
  deriving DecidableEq, Repr

def jMax : Nat := 10

/-- One round of the loop. -/
def look (r : Reception) : Look → Received
  | .readable c =>
      match Buffer.store r.recvBuff r.i [c] with
      | some recvBuff => .looking ⟨recvBuff,r.i + 1,0,true⟩
      | none => .fault
  | .silent late =>
      if r.reading then
        if r.j < jMax then .looking { r with j := r.j + 1 }
        else .returned r.i r.recvBuff
      else if late then .returned 0 r.recvBuff
      else .looking r

def receiveFrom : Reception → List Look → Received
  | r, [] => .looking r
  | r, found :: line =>
      match look r found with
      | .looking r => receiveFrom r line
      | received => received

def receiveFrame (recvBuff : List UInt8) (line : List Look) : Received :=
  receiveFrom ⟨recvBuff,0,0,false⟩ line

/-- A number of the payload. -/
def payload (recvBuff : List UInt8) (offset width : Nat) : Nat :=
  LittleEndian.ofBytes ((recvBuff.drop (6 + offset)).take width)

/-- What is returned through the arguments of `GetTime`. -/
structure UtcTime where
  date : BitVec 32
  time : BitVec 32
  deriving DecidableEq, Repr

/-- What is returned through the arguments of `GetPosition`. -/
structure Position where
  lat : BitVec 32
  lon : BitVec 32
  alt : BitVec 32
  hAcc : BitVec 32
  vAcc : BitVec 32
  deriving DecidableEq, Repr

/-- `UBXNAV_TIMEUTC`, as it is encoded. -/
def readTime (recvBuff : List UInt8) : UtcTime :=
  let year := payload recvBuff 12 2
  let month := payload recvBuff 14 1
  let day := payload recvBuff 15 1
  let hour := payload recvBuff 16 1
  let min := payload recvBuff 17 1
  let sec := payload recvBuff 18 1
  { date := BitVec.ofNat 32 ((if 2000 < year then year - 2000 else year) + month * 100 +
      day * 10000)
    time := BitVec.ofNat 32 (sec * min * hour) }

/-- `UBXNAV_POSLLH`. -/
def readPosition (recvBuff : List UInt8) : Position where
  lon := BitVec.ofNat 32 (payload recvBuff 4 4)
  lat := BitVec.ofNat 32 (payload recvBuff 8 4)
  alt := BitVec.ofNat 32 (payload recvBuff 12 4)
  hAcc := BitVec.ofNat 32 (payload recvBuff 20 4)
  vAcc := BitVec.ofNat 32 (payload recvBuff 24 4)

/-- What comes of a call: it is still waiting, it has written behind the buffer, or it returns
false or true. The values are also written when a position is not valid. -/
inductive Reply (α : Type)
  | waiting
  | fault
  | refused (values : Option α)
  | accepted (values : α)
  deriving DecidableEq, Repr

/-- `GetTime` and `GetPosition`: a poll, its reply, and the tests of the reply. -/
def ask {α : Type} (msgId : UInt8) (read : List UInt8 → α) (valid : α → Bool)
    (recvBuff : List UInt8) (line : List Look) : Reply α :=
  match receiveFrame (pollCmd 0x01 msgId recvBuff) line with
  | .looking _ => .waiting
  | .fault => .fault
  | .returned n recvBuff =>
      if n ≠ 0 ∧ recvBuff.take 4 = [0xB5,0x62,0x01,msgId] then
        if valid (read recvBuff) then .accepted (read recvBuff)
        else .refused (some (read recvBuff))
      else .refused none

def getTime : List UInt8 → List Look → Reply UtcTime := ask 0x21 readTime fun _ => true

/-- The sensor is fixed where this returns true. -/
def getPosition : List UInt8 → List Look → Reply Position :=
  ask 0x02 readPosition fun pos => pos.lat ≠ 0 && pos.lon ≠ 0

/-- The bytes that arrive in a call, and whether the call is over: it is when nothing has come
until the deadline, or at the eleventh silence in a row behind a byte. The first argument counts
the silences behind the last byte. -/
def arrived : Option Nat → List Look → List UInt8 × Bool
  | _, [] => ([],false)
  | _, .readable c :: line => (c :: (arrived (some 0) line).1,(arrived (some 0) line).2)
  | none, .silent late :: line => if late then ([],true) else arrived none line
  | some j, .silent _ :: line => if j < jMax then arrived (some (j + 1)) line else ([],true)

/-- What `ReceiveFrame` makes of the bytes that arrive. -/
def Received.Holds (recvBuff bytes : List UInt8) (ended : Bool) : Received → Prop
  | .looking _ => bytes.length ≤ gpsRecvBuff ∧ ended = false
  | .fault => gpsRecvBuff < bytes.length
  | .returned n received => bytes.length ≤ gpsRecvBuff ∧ ended = true ∧ n = bytes.length ∧
      received = bytes ++ recvBuff.drop bytes.length

/-- The reception behind some bytes, with the silences since the last one. -/
def Reception.behind (recvBuff got : List UInt8) (idle : Option Nat) : Reception :=
  ⟨got ++ recvBuff.drop got.length,got.length,idle.getD 0,idle.isSome⟩

section Receiving

variable {recvBuff : List UInt8}

theorem look_readable {got : List UInt8} (hroom : got.length < recvBuff.length)
    (idle : Option Nat) (c : UInt8) : look (.behind recvBuff got idle) (.readable c) =
      .looking (.behind recvBuff (got ++ [c]) (some 0)) := by
  have hfits : (got ++ [c]).length ≤ recvBuff.length := by
    rw [List.length_append,List.length_singleton]
    exact hroom
  have hstore := Buffer.store_behind hfits
  simp only [look,Reception.behind,hstore]
  rw [List.length_append]
  rfl

theorem look_readable_full {got : List UInt8} (hfull : recvBuff.length ≤ got.length)
    (idle : Option Nat) (c : UInt8) : look (.behind recvBuff got idle) (.readable c) = .fault := by
  have hstore : (got ++ recvBuff.drop got.length).length < (got.length : Int) + [c].length := by
    rw [List.length_append,List.length_drop,List.length_singleton]
    omega
  simp only [look,Reception.behind,Buffer.store_eq_none hstore]

theorem receiveFrom_holds (hsize : recvBuff.length = gpsRecvBuff) (line : List Look)
    {got : List UInt8} (hgot : got.length ≤ gpsRecvBuff) {idle : Option Nat}
    (hidle : idle = none → got = []) :
    (receiveFrom (.behind recvBuff got idle) line).Holds recvBuff (got ++ (arrived idle line).1)
      (arrived idle line).2 := by
  induction line generalizing got idle with
  | nil =>
    have hnone : arrived idle [] = ([],false) := by cases idle <;> rfl
    rw [hnone,List.append_nil]
    exact ⟨hgot,rfl⟩
  | cons found line ih =>
    cases found with
    | readable c =>
      have hbytes : arrived idle (.readable c :: line) =
          (c :: (arrived (some 0) line).1,(arrived (some 0) line).2) := by cases idle <;> rfl
      rw [hbytes,List.append_cons]
      by_cases hroom : got.length < gpsRecvBuff
      · rw [receiveFrom,look_readable (hsize ▸ hroom)]
        refine ih ?_ fun hnone => by cases hnone
        rw [List.length_append,List.length_singleton]
        exact hroom
      · rw [receiveFrom,look_readable_full (hsize ▸ Nat.le_of_not_lt hroom)]
        rw [Received.Holds,List.length_append,List.length_append,List.length_singleton]
        omega
    | silent late =>
      cases idle with
      | none =>
        obtain rfl := hidle rfl
        cases late with
        | true => exact ⟨hgot,rfl,rfl,rfl⟩
        | false => exact ih hgot hidle
      | some j =>
        by_cases hsoon : j < jMax
        · have hbytes : arrived (some j) (.silent late :: line) = arrived (some (j + 1)) line :=
            if_pos hsoon
          have hlook : look (.behind recvBuff got (some j)) (.silent late) =
              .looking (.behind recvBuff got (some (j + 1))) := if_pos hsoon
          rw [hbytes,receiveFrom,hlook]
          exact ih hgot fun hnone => by cases hnone
        · have hbytes : arrived (some j) (.silent late :: line) = ([],true) := if_neg hsoon
          have hlook : look (.behind recvBuff got (some j)) (.silent late) =
              .returned got.length (got ++ recvBuff.drop got.length) := if_neg hsoon
          rw [hbytes,receiveFrom,hlook,List.append_nil]
          exact ⟨hgot,rfl,rfl,rfl⟩

theorem receiveFrame_holds (hsize : recvBuff.length = gpsRecvBuff) (line : List Look) :
    (receiveFrame recvBuff line).Holds recvBuff (arrived none line).1 (arrived none line).2 :=
  receiveFrom_holds hsize line (Nat.zero_le _) fun _ => rfl

theorem pollCmd_length (msgClass msgId : UInt8) (hsize : recvBuff.length = gpsRecvBuff) :
    (pollCmd msgClass msgId recvBuff).length = gpsRecvBuff := by
  have hframe : (pollFrame msgClass msgId).length = 8 := rfl
  rw [pollCmd,List.length_append,List.length_drop,hframe,hsize,gpsRecvBuff]

end Receiving

/-- The first bytes of a reply. -/
def header (msgId : UInt8) : List UInt8 := [0xB5,0x62,0x01,msgId]

/-- Nothing is written behind the buffer, and true is returned only for a reply that has arrived
with all bytes that are read of it, and with the values of these bytes. -/
def RepliesSafely {α : Type} (msgId : UInt8) (need : Nat) (read : List UInt8 → α)
    (reply : Reply α) (bytes : List UInt8) : Prop :=
  reply ≠ .fault ∧ ∀ values, reply = .accepted values →
    bytes.take 4 = header msgId ∧ need ≤ bytes.length ∧ values = read bytes

/-- The bytes of the call fit in the buffer, and they are none, enough, or not taken for a reply
with what the poll and earlier replies have left behind them. -/
def Adequate {α : Type} (msgId : UInt8) (need : Nat) (read : List UInt8 → α) (valid : α → Bool)
    (recvBuff bytes : List UInt8) (ended : Bool) : Prop :=
  bytes.length ≤ gpsRecvBuff ∧ (ended = false ∨ bytes = [] ∨ need ≤ bytes.length ∨
    ¬bytes.take 4 <+: header msgId ∨
    valid (read (bytes ++ (pollCmd 0x01 msgId recvBuff).drop bytes.length)) = false)

instance {α : Type} (msgId : UInt8) (need : Nat) (read : List UInt8 → α) (valid : α → Bool)
    (recvBuff bytes : List UInt8) (ended : Bool) :
    Decidable (Adequate msgId need read valid recvBuff bytes ended) :=
  inferInstanceAs (Decidable (_ ∧ _))

section Asking

variable {α : Type} {msgId : UInt8} {need : Nat} {read : List UInt8 → α} {valid : α → Bool}
  {recvBuff : List UInt8}

theorem take_eq_header {bytes : List UInt8} (h : bytes.take 4 <+: header msgId)
    (hlong : 4 ≤ bytes.length) : bytes.take 4 = header msgId := by
  refine h.eq_of_length ?_
  rw [List.length_take]
  exact Nat.min_eq_left hlong

/-- The header of the poll stands behind the bytes of a reply that is too short for its own. -/
theorem take_header (bytes : List UInt8) :
    (bytes ++ (pollCmd 0x01 msgId recvBuff).drop bytes.length).take 4 = header msgId ↔
      bytes.take 4 <+: header msgId := by
  have hpoll : (pollCmd 0x01 msgId recvBuff).take 4 = header msgId := rfl
  by_cases hlong : 4 ≤ bytes.length
  · rw [List.take_append_of_le_length hlong]
    constructor
    · intro heq
      rw [heq]
    · exact fun hfront => take_eq_header hfront hlong
  · have hshort : bytes.take 4 = bytes := List.take_of_length_le (by omega)
    have hrest : ((pollCmd 0x01 msgId recvBuff).drop bytes.length).take (4 - bytes.length) =
        (header msgId).drop bytes.length := by
      rw [← hpoll,List.drop_take]
    rw [List.take_append,hshort,hrest]
    constructor
    · intro heq
      exact ⟨_,heq⟩
    · rintro ⟨rest,hrest⟩
      rw [← hrest,List.drop_left]

/-- A reply that arrives as a whole is accepted. -/
theorem ask_accepted (hsize : recvBuff.length = gpsRecvBuff) {line : List Look}
    {bytes : List UInt8} (harrived : arrived none line = (bytes,true))
    (hfits : bytes.length ≤ gpsRecvBuff) (hheader : bytes.take 4 = header msgId)
    (hread : ∀ rest, read (bytes ++ rest) = read bytes) (hvalid : valid (read bytes) = true) :
    ask msgId read valid recvBuff line = .accepted (read bytes) := by
  have hholds := receiveFrame_holds (pollCmd_length 0x01 msgId hsize) line
  rw [harrived] at hholds
  rw [ask]
  cases hreceived : receiveFrame (pollCmd 0x01 msgId recvBuff) line with
  | looking reception =>
    rw [hreceived] at hholds
    cases hholds.2
  | fault =>
    rw [hreceived] at hholds
    exact absurd hfits (Nat.not_le_of_lt hholds)
  | returned n received =>
    rw [hreceived] at hholds
    obtain ⟨-,-,rfl,rfl⟩ := hholds
    have hsome : bytes.length ≠ 0 := by
      intro hnone
      rw [List.length_eq_zero_iff.mp hnone] at hheader
      cases hheader
    have htaken : bytes.length ≠ 0 ∧ (bytes ++ (pollCmd 0x01 msgId recvBuff).drop
        bytes.length).take 4 = [0xB5,0x62,0x01,msgId] := by
      refine ⟨hsome,take_header bytes |>.mpr ?_⟩
      rw [hheader]
    simp only [if_pos htaken,hread,if_pos hvalid]

/-- A call replies safely exactly when its bytes are adequate. -/
theorem ask_exact (hsize : recvBuff.length = gpsRecvBuff) (hneed : 4 ≤ need)
    (hread : ∀ bytes rest, need ≤ bytes.length → read (bytes ++ rest) = read bytes)
    (line : List Look) :
    RepliesSafely msgId need read (ask msgId read valid recvBuff line) (arrived none line).1 ↔
      Adequate msgId need read valid recvBuff (arrived none line).1 (arrived none line).2 := by
  have hholds := receiveFrame_holds (pollCmd_length 0x01 msgId hsize) line
  rw [ask,RepliesSafely,Adequate]
  generalize arrived none line = got at hholds ⊢
  obtain ⟨bytes,ended⟩ := got
  cases hreceived : receiveFrame (pollCmd 0x01 msgId recvBuff) line with
  | looking reception =>
    rw [hreceived] at hholds
    exact iff_of_true ⟨by simp,fun values h => by cases h⟩ ⟨hholds.1,.inl hholds.2⟩
  | fault =>
    rw [hreceived] at hholds
    have hover : ¬bytes.length ≤ gpsRecvBuff := Nat.not_le_of_lt hholds
    exact iff_of_false (fun h => h.1 rfl) fun h => hover h.1
  | returned n received =>
    rw [hreceived] at hholds
    obtain ⟨hfits,rfl,rfl,rfl⟩ := hholds
    have htaken : bytes.length ≠ 0 ∧
        (bytes ++ (pollCmd 0x01 msgId recvBuff).drop bytes.length).take 4 = header msgId ↔
          bytes ≠ [] ∧ bytes.take 4 <+: header msgId := by
      rw [take_header,ne_eq,List.length_eq_zero_iff]
    simp only
    by_cases htake : bytes ≠ [] ∧ bytes.take 4 <+: header msgId
    · rw [header] at htaken
      rw [if_pos (htaken.mpr htake)]
      cases hvalid : valid (read (bytes ++ (pollCmd 0x01 msgId recvBuff).drop bytes.length)) with
      | false => exact iff_of_true ⟨by simp,by simp⟩ ⟨hfits,by simp⟩
      | true =>
        rw [if_pos rfl]
        constructor
        · rintro ⟨-,haccepted⟩
          exact ⟨hfits,.inr (.inr (.inl (haccepted _ rfl).2.1))⟩
        · rintro ⟨-,hcases⟩
          have henough : need ≤ bytes.length := by
            rcases hcases with hover | hnone | henough | hother | hvalid
            · cases hover
            · exact absurd hnone htake.1
            · exact henough
            · exact absurd htake.2 hother
            · cases hvalid
          refine ⟨by simp,fun values h => ?_⟩
          obtain rfl := Reply.accepted.inj h
          exact ⟨take_eq_header htake.2 (Nat.le_trans hneed henough),henough,
            hread _ _ henough⟩
    · rw [header] at htaken
      rw [if_neg (mt htaken.mp htake)]
      refine iff_of_true ⟨by simp,by simp⟩ ⟨hfits,.inr ?_⟩
      by_cases hnone : bytes = []
      · exact .inl hnone
      · exact .inr (.inr (.inl fun hfront => htake ⟨hnone,hfront⟩))

/-- A number of the payload lies in the bytes in front of its end. -/
theorem payload_append {bytes : List UInt8} (rest : List UInt8) {offset width : Nat}
    (h : 6 + offset + width ≤ bytes.length) :
    payload (bytes ++ rest) offset width = payload bytes offset width := by
  rw [payload,payload,List.drop_append_of_le_length (by omega),
    List.take_append_of_le_length (by rw [List.length_drop]; omega)]

theorem readTime_append (bytes rest : List UInt8) (h : 25 ≤ bytes.length) :
    readTime (bytes ++ rest) = readTime bytes := by
  rw [readTime,readTime,payload_append rest (by omega),payload_append rest (by omega),
    payload_append rest (by omega),payload_append rest (by omega),
    payload_append rest (by omega),payload_append rest (by omega)]

theorem readPosition_append (bytes rest : List UInt8) (h : 34 ≤ bytes.length) :
    readPosition (bytes ++ rest) = readPosition bytes := by
  rw [readPosition,readPosition,payload_append rest (by omega),payload_append rest (by omega),
    payload_append rest (by omega),payload_append rest (by omega),
    payload_append rest (by omega)]

/-- For every line and every content of the buffer, the two calls reply safely exactly when the
bytes that arrive are adequate. -/
theorem reply_exact (hsize : recvBuff.length = gpsRecvBuff) (line : List Look) :
    (RepliesSafely 0x21 25 readTime (getTime recvBuff line) (arrived none line).1 ↔
        Adequate 0x21 25 readTime (fun _ => true) recvBuff (arrived none line).1
          (arrived none line).2) ∧
      (RepliesSafely 0x02 34 readPosition (getPosition recvBuff line) (arrived none line).1 ↔
        Adequate 0x02 34 readPosition (fun pos => pos.lat ≠ 0 && pos.lon ≠ 0) recvBuff
          (arrived none line).1 (arrived none line).2) :=
  ⟨ask_exact hsize (by decide) readTime_append line,
    ask_exact hsize (by decide) readPosition_append line⟩

end Asking

/-- Eleven silences in a row. -/
def silence : List Look := List.replicate 11 (.silent false)

/-- A reply that tells the time. -/
def timeReply : List UInt8 :=
  [0xB5,0x62,0x01,0x21,20,0] ++ List.replicate 12 0 ++ [0xE0,0x07,5,18,21,59,55,7,0,0]

/-- A buffer of zeros. -/
def zeroBuff : List UInt8 := List.replicate gpsRecvBuff 0

theorem reply_exact_example : RepliesSafely 0x21 25 readTime
    (getTime zeroBuff (timeReply.map .readable ++ silence))
    (arrived none (timeReply.map .readable ++ silence)).1 := by
  have hsize : zeroBuff.length = gpsRecvBuff := List.length_replicate
  have hadequate : Adequate 0x21 25 readTime (fun _ => true) zeroBuff
      (arrived none (timeReply.map .readable ++ silence)).1
      (arrived none (timeReply.map .readable ++ silence)).2 := by decide +kernel
  have hexact := reply_exact hsize (timeReply.map .readable ++ silence)
  exact hexact.1.mpr hadequate

/-- The buffer behind that reply. -/
def staleBuff : List UInt8 := timeReply ++ List.replicate 484 0

/-- A single byte is taken for a reply with the time that an earlier one has left. -/
theorem reply_stale : staleBuff.length = gpsRecvBuff ∧
    getTime staleBuff (.readable 0xB5 :: silence) = .accepted (readTime timeReply) ∧
    ¬RepliesSafely 0x21 25 readTime (getTime staleBuff (.readable 0xB5 :: silence)) [0xB5] := by
  have haccepted : getTime staleBuff (.readable 0xB5 :: silence) =
      .accepted (readTime timeReply) := by decide +kernel
  refine ⟨by decide +kernel,haccepted,fun hsafe => ?_⟩
  exact absurd (hsafe.2 _ haccepted).2.1 (by decide)

end Pyrn.Gps.Ubx
