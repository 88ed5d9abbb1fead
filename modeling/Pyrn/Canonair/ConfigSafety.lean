import Pyrn.Canonair.ConfigRoundTrip
import Pyrn.Canonair.RecorderListens

/-!
# Any configuration datagram

The parse loop of the client trusts the datagram: it reads as many chunks as a record announces
and only then compares the offset with the number of bytes received, and behind the loop the
count in the first byte says how many recorders there are. Here the reads are checked against the
received bytes.
-/

namespace Pyrn.Canonair

open Pyrn.Can Pyrn.Server PackedStruct LittleEndian

/-- What `GetConfig` returns: a failed receive, or at most as many bytes as asked for. -/
inductive ConfigReply
  | failed
  | datagram (bytes : List UInt8) (fits : bytes.length ≤ recDtaSz)

def ConfigReply.bytes : ConfigReply → List UInt8
  | failed => []
  | datagram bytes _ => bytes

/-- The value of `receiveFrom`. -/
def ConfigReply.l : ConfigReply → Int
  | failed => -1
  | datagram bytes _ => bytes.length

/-- The loop over the chunks on the received bytes: `none` is a read behind them or a write past
the end of `calcData`. -/
def readChunks (config : List UInt8) : Nat → Nat → List UInt8 × Nat → Option (List UInt8 × Nat)
  | 0, _, st => some st
  | left + 1, c, (calcData,offset) => do
      let start ← Buffer.load config offset 1
      let calcData ← Buffer.store calcData (sizeofCANRecorderCalculatorHeader + c * 2 : Nat) start
      let len ← Buffer.load config (offset + 1 : Nat) 1
      let calcData ← Buffer.store calcData
        (sizeofCANRecorderCalculatorHeader + (c * 2 + 1) : Nat) len
      readChunks config left (c + 1) (calcData,offset + 2)

/-- The data built from the record at an offset, and the offset behind the record. -/
def readRecord (config : List UInt8) (offset : Nat) : Option (List UInt8 × Nat) := do
  let rxAddr ← Buffer.load config offset 4
  let nChunks ← Buffer.load config (offset + 4 : Nat) 1
  let calcData ← Buffer.store (List.replicate calcDataSz 0) 0 (image
    [(1,2),(4,0),(2,500),(4,ofBytes rxAddr),(1,6),(1,14),(1,ofBytes nChunks)])
  readChunks config (ofBytes nChunks) 0 (calcData,offset + 5)

/-- One round whose record is read from the received bytes alone. -/
def readRound (config : List UInt8) (memory : Allocations) (st : SetupState) :
    Option SetupState := do
  let _ ← readRecord config st.config.offset
  setupRound (received config) memory st

/-- The parse loop with its reads checked. -/
def readSetup (config : List UInt8) (l : Int) (memory : Allocations) :
    Nat → SetupState → Option SetupState
  | 0, _ => none
  | fuel + 1, st =>
      if st.config.offset < l then
        if st.config.recCalcs.length < nMaxRecs then do
          let next ← readRound config memory st
          readSetup config l memory fuel next
        else some st
      else some st

/-- What the loop behind the parse loop asks of the recorder `p`. -/
def pointsOf (recs : List CANRecorder) (p : Nat) : Option (Nat × Nat) := do
  let recorder ← recs[p]?
  return (recorder.nPoints,recorder.nPointsMax)

/-- From the count in the first byte to the loop behind the parse loop, which asks the first
`nCalcs` recorders for their points; `none` is also a recorder that has not been made. -/
def configure (reply : ConfigReply) (memory : Allocations) (fuel : Nat) :
    Option (SetupState × List (Nat × Nat)) := do
  let nCalcs ← Buffer.load reply.bytes 0 1
  let st ← readSetup reply.bytes reply.l memory fuel (SetupState.start memory)
  let points ← (List.range (ofBytes nCalcs)).mapM (pointsOf st.recs)
  return (st,points)

/-- The configuration is parsed to its end within bounds: of the received bytes, of `calcData`
and of the recorders made. -/
def ConfigSafe (reply : ConfigReply) (memory : Allocations) : Prop :=
  ∃ result, ∀ fuel, recDtaSz < fuel → configure reply memory fuel = some result

/-- How many records follow the rule for chunks. -/
def acceptedIn (calcs : List Calc) : Nat := (calcs.filter (Accepted ·)).length

/-- A count, then whole records up to the end or up to the last recorder there is room for; the
count is not larger than the number of records that follow the rule for chunks. -/
def WholeRecords (bytes : List UInt8) : Prop :=
  ∃ (nCalcs : UInt8) (calcs : List Calc) (rest : List UInt8), (∀ c ∈ calcs, InRange c) ∧
    bytes = nCalcs :: (calcs.flatMap calcImage ++ rest) ∧
    nCalcs.toNat ≤ acceptedIn calcs ∧ acceptedIn calcs ≤ nMaxRecs ∧
    (rest = [] ∨ acceptedIn calcs = nMaxRecs)

section Reads

variable {config : List UInt8} {offset n : Nat}

theorem bytes_received (h : offset + n ≤ config.length) :
    (received config).bytes offset n = (config.drop offset).take n := by
  apply List.ext_getElem
  · rw [Memory.bytes_length,List.length_take,List.length_drop]
    omega
  · intro i hi _
    rw [Memory.bytes_length] at hi
    simp only [Memory.bytes,List.getElem_map,List.getElem_range,received,List.getElem_take,
      List.getElem_drop]
    exact List.getD_eq_getElem _ _ (by omega)

/-- A checked read gives the bytes of the memory. -/
theorem load_received (h : offset + n ≤ config.length) :
    Buffer.load config offset n = some ((received config).bytes offset n) := by
  rw [bytes_received h]
  exact Buffer.load_of_le h

theorem load_one (h : offset < config.length) :
    Buffer.load config offset 1 = some [received config offset] := load_received h

theorem load_one_eq_none (h : config.length ≤ offset) : Buffer.load config offset 1 = none := by
  rw [Buffer.load,if_neg (by omega)]

/-- The chunks that lie among the received bytes are copied as from memory. -/
theorem readChunks_eq {left : Nat} (c : Nat) (calcData : List UInt8)
    (h : offset + 2 * left ≤ config.length) :
    readChunks config left c (calcData,offset) =
      copyChunks (received config) left c (calcData,offset) := by
  induction left generalizing offset c calcData with
  | zero => rfl
  | succ left ih =>
    rw [readChunks,copyChunks,load_one (by omega),load_one (by omega)]
    simp only [Option.bind_eq_bind,Option.bind_some]
    congr 1
    funext first
    congr 1
    funext second
    exact ih (c + 1) second (by omega)

/-- The chunks that are copied lie among the received bytes and in `calcData`. -/
theorem readChunks_bounds {left c : Nat} {calcData : List UInt8} {result : List UInt8 × Nat}
    (hread : readChunks config left c (calcData,offset) = some result)
    (hoffset : offset ≤ config.length)
    (hdata : sizeofCANRecorderCalculatorHeader + 2 * c ≤ calcData.length) :
    offset + 2 * left ≤ config.length ∧
      sizeofCANRecorderCalculatorHeader + 2 * (c + left) ≤ calcData.length := by
  induction left generalizing offset c calcData with
  | zero => exact ⟨hoffset,hdata⟩
  | succ left ih =>
    rw [readChunks] at hread
    obtain ⟨start,hstart,hread⟩ := Option.bind_eq_some_iff.mp hread
    obtain ⟨first,hfirst,hread⟩ := Option.bind_eq_some_iff.mp hread
    obtain ⟨len,hlen,hread⟩ := Option.bind_eq_some_iff.mp hread
    obtain ⟨second,hsecond,hrest⟩ := Option.bind_eq_some_iff.mp hread
    have hin : offset + 1 < config.length := by
      by_contra hout
      rw [load_one_eq_none (by omega)] at hlen
      cases hlen
    rw [load_one (by omega)] at hstart
    rw [load_one hin] at hlen
    rw [← Option.some.inj hstart] at hfirst
    rw [← Option.some.inj hlen] at hsecond
    obtain ⟨-,hfirst⟩ := Buffer.bounds_of_store hfirst
    obtain ⟨hend,hsecond⟩ := Buffer.bounds_of_store hsecond
    rw [List.length_singleton] at hend
    have hbounds := ih hrest (by omega) (by omega)
    omega

/-- A record is read when it lies among the received bytes with at most 57 chunks. -/
theorem readRecord_eq (h : offset + 5 + 2 * (received config (offset + 4)).toNat ≤ config.length) :
    readRecord config offset = buildCalcData (received config) offset := by
  have hcount : ofBytes [received config (offset + 4)] = (received config (offset + 4)).toNat := by
    simp
  have haddr : Buffer.load config offset 4 = some ((received config).bytes offset 4) :=
    load_received (show offset + 4 ≤ config.length by omega)
  rw [readRecord,haddr,load_one (by omega),buildCalcData]
  simp only [Option.bind_eq_bind,Option.bind_some,hcount]
  congr 1
  funext calcData
  exact readChunks_eq 0 calcData h

theorem readRecord_bounds {result : List UInt8 × Nat}
    (hread : readRecord config offset = some result) :
    offset + 5 + 2 * (received config (offset + 4)).toNat ≤ config.length ∧
      (received config (offset + 4)).toNat ≤ 57 := by
  rw [readRecord] at hread
  obtain ⟨rxAddr,-,hread⟩ := Option.bind_eq_some_iff.mp hread
  obtain ⟨nChunks,hcount,hread⟩ := Option.bind_eq_some_iff.mp hread
  obtain ⟨calcData,hstore,hrest⟩ := Option.bind_eq_some_iff.mp hread
  have hin : offset + 4 < config.length := by
    by_contra hout
    rw [load_one_eq_none (by omega)] at hcount
    cases hcount
  rw [load_one hin] at hcount
  have hlength : calcData.length = (List.replicate calcDataSz (0 : UInt8)).length :=
    (@Buffer.bounds_of_store _ _ _ _ 0 hstore).2
  rw [← Option.some.inj hcount] at hrest
  have hbounds := readChunks_bounds hrest (by omega) (by
    rw [hlength,List.length_replicate]
    decide)
  rw [hlength,List.length_replicate,ofBytes_cons,ofBytes_nil,calcDataSz,
    sizeofCANRecorderCalculatorHeader] at hbounds
  omega

/-- The calculator in the record at an offset. -/
def calcAt (config : Memory) (offset : Nat) : Calc where
  rxAdd := config.field offset 4
  chunks := (List.range (config (offset + 4)).toNat).map fun i =>
    ((config (offset + 5 + 2 * i)).toNat,(config (offset + 5 + (2 * i + 1))).toNat)

theorem chunkImage_calcAt (config : Memory) (offset n : Nat) :
    chunkImage ((List.range n).map fun i =>
      ((config (offset + 2 * i)).toNat,(config (offset + (2 * i + 1))).toNat)) =
      config.bytes offset (2 * n) := by
  induction n with
  | zero => rfl
  | succ n ih =>
    have hlast : image [(1,(config (offset + 2 * n)).toNat),
        (1,(config (offset + (2 * n + 1))).toNat)] = config.bytes (offset + 2 * n) 2 := by
      simp [image,toBytes,Memory.bytes,List.range_succ,Nat.add_assoc]
    rw [List.range_succ,List.map_append,chunkImage,List.flatMap_append,← chunkImage,ih,
      Nat.mul_succ,bytes_add]
    simp only [List.map_cons,List.map_nil,List.flatMap_cons,List.flatMap_nil,List.append_nil,hlast]

theorem recordAt_calcAt (config : Memory) (offset : Nat) :
    RecordAt config offset (calcAt config offset) := by
  have hcount : (calcAt config offset).chunks.length = (config (offset + 4)).toNat := by
    rw [calcAt,List.length_map,List.length_range]
  refine ⟨rfl,hcount.symm,?_⟩
  rw [hcount]
  exact (chunkImage_calcAt config (offset + 5) _).symm

theorem inRange_calcAt {config : Memory} (h : (config (offset + 4)).toNat ≤ 57) :
    InRange (calcAt config offset) := by
  refine ⟨?_,?_,?_⟩
  · have hlt := ofBytes_lt (config.bytes offset 4)
    rwa [Memory.bytes_length] at hlt
  · rw [calcAt,List.length_map,List.length_range]
    exact h
  · intro chunk hmem
    obtain ⟨i,-,rfl⟩ := List.mem_map.mp hmem
    exact ⟨UInt8.toNat_lt _,UInt8.toNat_lt _⟩

theorem calcImage_of_recordAt {config : Memory} {c : Calc} (h : RecordAt config offset c) :
    calcImage c = config.bytes offset (calcImage c).length := by
  have haddr : toBytes 4 c.rxAdd = config.bytes offset 4 := by
    have hbytes := toBytes_ofBytes (config.bytes offset 4)
    rwa [Memory.bytes_length,← Memory.field,h.rxAdd] at hbytes
  have hcount : toBytes 1 c.chunks.length = config.bytes (offset + 4) 1 := by
    have hbytes := toBytes_ofBytes (config.bytes (offset + 4) 1)
    rwa [Memory.bytes_length,show ofBytes (config.bytes (offset + 4) 1) = c.chunks.length by
      rw [← h.nChunks]
      simp [Memory.bytes]] at hbytes
  rw [calcImage_length,show 5 + 2 * c.chunks.length = 4 + (1 + 2 * c.chunks.length) by omega,
    bytes_add,bytes_add,h.chunks,calcImage,image_cons,image_cons,image_nil,List.append_nil,haddr,
    hcount,List.append_assoc]

/-- What can be read at an offset is a record. -/
theorem exists_record {result : List UInt8 × Nat} (hread : readRecord config offset = some result) :
    ∃ c, InRange c ∧ calcImage c <+: config.drop offset := by
  obtain ⟨hin,hmany⟩ := readRecord_bounds hread
  have himage := calcImage_of_recordAt (recordAt_calcAt (received config) offset)
  refine ⟨calcAt (received config) offset,inRange_calcAt hmany,?_⟩
  have hlength : (calcImage (calcAt (received config) offset)).length =
      5 + 2 * (received config (offset + 4)).toNat := by
    rw [calcImage_length,calcAt,List.length_map,List.length_range]
  rw [himage,bytes_received (by omega)]
  exact List.take_prefix _ _

end Reads

section Rounds

variable {config : List UInt8} {l : Int} {memory : Allocations} {st next : SetupState} {c : Calc}

theorem recs_length_eq (hst : st.Sound memory) :
    st.recs.length = st.config.recCalcs.length := by
  rw [← hst.calculators,List.length_map]

/-- A round on a record: one recorder more if the record follows the rule for chunks. -/
theorem readRound_record (hst : st.Sound memory) (hroom : st.recs.length < nMaxRecs)
    (hc : InRange c) (hrecord : calcImage c <+: config.drop st.config.offset) :
    ∃ next, readRound config memory st = some next ∧ next.Sound memory ∧
      next.config.offset = st.config.offset + (calcImage c).length ∧
      next.recs.length = st.recs.length + if Accepted c then 1 else 0 := by
  have hlength := hrecord.length_le
  rw [List.length_drop] at hlength
  have hsize := calcImage_length c
  have hat : RecordAt (received config) st.config.offset c := by
    apply recordAt_of_bytes hc
    rw [bytes_received (by omega)]
    exact (List.prefix_iff_eq_take.mp hrecord).symm
  obtain ⟨config',hround,hoffset,-,hkept⟩ :=
    configRound_recordAt hc hat (memory.calculator st.config.starts.length)
  obtain ⟨next,hsetup,rfl,hsound⟩ := setupRound_sound hst
    (by rw [← recs_length_eq hst]; exact hroom) hround
  have hread : readRecord config st.config.offset =
      buildCalcData (received config) st.config.offset := by
    apply readRecord_eq
    rw [hat.nChunks]
    omega
  refine ⟨next,?_,hsound,hoffset,?_⟩
  · rw [configRound] at hround
    obtain ⟨data,hdata,-⟩ := Option.bind_eq_some_iff.mp hround
    rw [readRound,hread,hdata,Option.bind_eq_bind,Option.bind_some]
    exact hsetup
  · have hcount := congrArg List.length hkept
    rw [List.length_append,List.length_map,List.length_map,← recs_length_eq hsound,
      ← recs_length_eq hst] at hcount
    rw [hcount]
    split <;> rfl

theorem record_of_readRound (hround : readRound config memory st = some next) :
    ∃ c, InRange c ∧ calcImage c <+: config.drop st.config.offset := by
  obtain ⟨result,hread,-⟩ := Option.bind_eq_some_iff.mp hround
  exact exists_record hread

/-- The loop with its reads checked computes what the loop on memory does. -/
theorem parseSetup_of_readSetup {fuel : Nat} {final : SetupState}
    (hread : readSetup config l memory fuel st = some final) :
    parseSetup (received config) l memory fuel st = some final := by
  induction fuel generalizing st with
  | zero => cases hread
  | succ fuel ih =>
    rw [readSetup] at hread
    rw [parseSetup]
    split at hread
    · split at hread
      · rename_i hmore hroom
        obtain ⟨next,hround,hrest⟩ := Option.bind_eq_some_iff.mp hread
        obtain ⟨-,-,hsetup⟩ := Option.bind_eq_some_iff.mp hround
        rw [if_pos hmore,if_pos hroom,hsetup]
        exact ih hrest
      · rename_i hmore hroom
        rw [if_pos hmore,if_neg hroom]
        exact hread
    · rename_i hmore
      rw [if_neg hmore]
      exact hread

theorem acceptedIn_cons (c : Calc) (calcs : List Calc) :
    acceptedIn (c :: calcs) = (if Accepted c then 1 else 0) + acceptedIn calcs := by
  rw [acceptedIn,acceptedIn,List.filter_cons]
  by_cases haccepted : Accepted c
  · simp [haccepted,Nat.add_comm]
  · simp [haccepted]

/-- A loop that ends within bounds has walked over whole records. -/
theorem records_of_readSetup {fuel : Nat} {final : SetupState} (hst : st.Sound memory)
    (hoffset : st.config.offset ≤ config.length)
    (hread : readSetup config config.length memory fuel st = some final) :
    ∃ calcs rest, (∀ c ∈ calcs, InRange c) ∧
      config.drop st.config.offset = calcs.flatMap calcImage ++ rest ∧
      final.recs.length = st.recs.length + acceptedIn calcs ∧ final.recs.length ≤ nMaxRecs ∧
      (rest = [] ∨ final.recs.length = nMaxRecs) := by
  induction fuel generalizing st with
  | zero => cases hread
  | succ fuel ih =>
    have hmany := hst.recs_length
    rw [readSetup,← recs_length_eq hst] at hread
    by_cases hmore : (st.config.offset : Int) < config.length
    · by_cases hroom : st.recs.length < nMaxRecs
      · rw [if_pos hmore,if_pos hroom] at hread
        obtain ⟨next,hround,hrest⟩ := Option.bind_eq_some_iff.mp hread
        obtain ⟨c,hc,hrecord⟩ := record_of_readRound hround
        obtain ⟨next',hround',hsound,hbehind,hcount⟩ := readRound_record hst hroom hc hrecord
        cases hround.symm.trans hround'
        have hlength := hrecord.length_le
        rw [List.length_drop] at hlength
        obtain ⟨calcs,rest,hrange,hbytes,hfinal,hle,hend⟩ := ih hsound (by omega) hrest
        refine ⟨c :: calcs,rest,?_,?_,?_,hle,hend⟩
        · exact List.forall_mem_cons.mpr ⟨hc,hrange⟩
        · obtain ⟨behind,hbehind'⟩ := hrecord
          rw [hbehind,← List.drop_drop,← hbehind',List.drop_left] at hbytes
          rw [← hbehind',hbytes,List.flatMap_cons,List.append_assoc]
        · rw [hfinal,hcount,acceptedIn_cons,Nat.add_assoc]
      · rw [if_pos hmore,if_neg hroom] at hread
        cases hread
        exact ⟨[],_,by simp,rfl,rfl,hmany,.inr (by omega)⟩
    · rw [if_neg hmore] at hread
      cases hread
      refine ⟨[],[],by simp,?_,rfl,hmany,.inl rfl⟩
      rw [List.drop_eq_nil_of_le (by omega)]
      rfl

/-- Over whole records the loop ends within bounds. -/
theorem readSetup_of_records {calcs : List Calc} {rest : List UInt8} (hst : st.Sound memory)
    (hrange : ∀ c ∈ calcs, InRange c)
    (hbytes : config.drop st.config.offset = calcs.flatMap calcImage ++ rest)
    (hend : rest = [] ∨ nMaxRecs ≤ st.recs.length + acceptedIn calcs) :
    ∃ final, (∀ fuel, calcs.length < fuel →
        readSetup config config.length memory fuel st = some final) ∧
      final.recs.length = min nMaxRecs (st.recs.length + acceptedIn calcs) := by
  induction calcs generalizing st with
  | nil =>
    have hmany := hst.recs_length
    refine ⟨st,?_,?_⟩
    · intro fuel hfuel
      obtain ⟨fuel,rfl⟩ := Nat.exists_eq_succ_of_ne_zero (Nat.ne_zero_of_lt hfuel)
      rw [readSetup,← recs_length_eq hst]
      rcases hend with rfl | hfull
      · have hlength := congrArg List.length hbytes
        rw [List.length_drop] at hlength
        rw [if_neg (by simp at hlength; omega)]
      · rw [if_neg (show ¬st.recs.length < nMaxRecs by simp [acceptedIn] at hfull; omega),
          ite_self]
    · simp only [acceptedIn,List.filter_nil,List.length_nil]
      omega
  | cons c calcs ih =>
    have hmany := hst.recs_length
    by_cases hroom : st.recs.length < nMaxRecs
    · rw [List.flatMap_cons,List.append_assoc] at hbytes
      have hrecord : calcImage c <+: config.drop st.config.offset := ⟨_,hbytes.symm⟩
      have hlength := hrecord.length_le
      rw [List.length_drop,calcImage_length] at hlength
      have hmore : (st.config.offset : Int) < config.length := by omega
      obtain ⟨next,hround,hsound,hbehind,hcount⟩ :=
        readRound_record hst hroom (hrange c List.mem_cons_self) hrecord
      obtain ⟨final,hrun,hfinal⟩ := ih hsound
        (fun other hmem => hrange other (List.mem_cons_of_mem c hmem))
        (by rw [hbehind,← List.drop_drop,hbytes,List.drop_left])
        (by rw [hcount,Nat.add_assoc,← acceptedIn_cons]; exact hend)
      refine ⟨final,?_,?_⟩
      · intro fuel hfuel
        obtain ⟨fuel,rfl⟩ := Nat.exists_eq_succ_of_ne_zero (Nat.ne_zero_of_lt hfuel)
        rw [readSetup,← recs_length_eq hst,if_pos hmore,if_pos hroom,hround]
        exact hrun fuel (Nat.lt_of_succ_lt_succ hfuel)
      · rw [hfinal,hcount,Nat.add_assoc,← acceptedIn_cons]
    · refine ⟨st,?_,by omega⟩
      intro fuel hfuel
      obtain ⟨fuel,rfl⟩ := Nat.exists_eq_succ_of_ne_zero (Nat.ne_zero_of_lt hfuel)
      rw [readSetup,← recs_length_eq hst,if_neg hroom,ite_self]

end Rounds

section Configuration

theorem isSome_mapM {α β : Type} {f : α → Option β} {xs : List α} :
    (xs.mapM f).isSome = true ↔ ∀ x ∈ xs, (f x).isSome = true := by
  induction xs with
  | nil => simp
  | cons x xs ih =>
    rw [List.mapM_cons,List.forall_mem_cons,← ih]
    cases f x <;> cases xs.mapM f <;> simp

/-- The recorders that are asked for their points have to be there. -/
theorem isSome_points {recs : List CANRecorder} {n : Nat} :
    ((List.range n).mapM (pointsOf recs)).isSome = true ↔ n ≤ recs.length := by
  rw [isSome_mapM]
  constructor
  · intro hall
    by_contra hmany
    have hlast := hall recs.length (List.mem_range.mpr (by omega))
    rw [pointsOf,List.getElem?_eq_none (le_refl _)] at hlast
    cases hlast
  · intro hfew p hp
    have hlt : p < recs.length := by
      rw [List.mem_range] at hp
      omega
    rw [pointsOf,List.getElem?_eq_getElem hlt]
    rfl

variable {reply : ConfigReply} {memory : Allocations}

theorem load_first (nCalcs : UInt8) (behind : List UInt8) :
    Buffer.load (nCalcs :: behind) 0 1 = some [nCalcs] := by
  have hload : Buffer.load (nCalcs :: behind) 0 (1 : Nat) = some ((nCalcs :: behind).take 1) :=
    Buffer.load_zero_of_le (by rw [List.length_cons]; omega)
  exact hload

theorem ofBytes_singleton (byte : UInt8) : ofBytes [byte] = byte.toNat := by simp

theorem recs_start (memory : Allocations) : (SetupState.start memory).recs.length = 0 := rfl

theorem wholeRecords_of_safe (hsafe : ConfigSafe reply memory) : WholeRecords reply.bytes := by
  obtain ⟨result,hall⟩ := hsafe
  have hrun := hall (recDtaSz + 1) (Nat.lt_succ_self _)
  rw [configure] at hrun
  obtain ⟨count,hcount,hrun⟩ := Option.bind_eq_some_iff.mp hrun
  obtain ⟨final,hread,hrun⟩ := Option.bind_eq_some_iff.mp hrun
  obtain ⟨points,hpoints,-⟩ := Option.bind_eq_some_iff.mp hrun
  cases reply with
  | failed => cases hcount
  | datagram bytes fits =>
    cases bytes with
    | nil => cases hcount
    | cons nCalcs behind =>
      rw [ConfigReply.bytes,load_first] at hcount
      rw [← Option.some.inj hcount,ofBytes_singleton] at hpoints
      have hfew : nCalcs.toNat ≤ final.recs.length := by
        rw [← isSome_points,Option.isSome_iff_exists]
        exact ⟨points,hpoints⟩
      obtain ⟨calcs,rest,hrange,hbytes,hfinal,hle,hend⟩ :=
        records_of_readSetup (start_sound memory) (Nat.le_add_left _ _) hread
      rw [recs_start,Nat.zero_add] at hfinal
      rw [hfinal] at hfew hle hend
      exact ⟨nCalcs,calcs,rest,hrange,congrArg (nCalcs :: ·) hbytes,hfew,hle,hend⟩

theorem safe_of_wholeRecords (hwhole : WholeRecords reply.bytes) (memory : Allocations) :
    ConfigSafe reply memory := by
  obtain ⟨nCalcs,calcs,rest,hrange,hbytes,hfew,hle,hend⟩ := hwhole
  cases reply with
  | failed => cases hbytes
  | datagram bytes fits =>
    cases hbytes
    have hstart : (nCalcs :: (calcs.flatMap calcImage ++ rest)).drop
        (SetupState.start memory).config.offset = calcs.flatMap calcImage ++ rest := rfl
    obtain ⟨final,hrun,hfinal⟩ := readSetup_of_records (start_sound memory) hrange hstart
      (hend.imp_right fun hfull => by rw [recs_start,Nat.zero_add]; exact hfull.ge)
    rw [recs_start,Nat.zero_add,Nat.min_eq_right hle] at hfinal
    obtain ⟨points,hpoints⟩ := Option.isSome_iff_exists.mp
      (isSome_points.mpr (show nCalcs.toNat ≤ final.recs.length by rw [hfinal]; exact hfew))
    have hfuel : calcs.length ≤ recDtaSz := by
      have hrecords := length_le_flatMap_calcImage calcs
      rw [List.length_cons,List.length_append] at fits
      omega
    refine ⟨(final,points),fun fuel hlarge => ?_⟩
    rw [configure,ConfigReply.bytes,ConfigReply.l,load_first]
    simp only [Option.bind_eq_bind,Option.bind_some]
    rw [hrun fuel (by omega)]
    simp only [Option.bind_some]
    rw [ofBytes_singleton,hpoints]
    rfl

end Configuration

/-- A configuration is parsed within bounds exactly when it consists of whole records and does
not count more recorders than it gives. -/
theorem configSafe_iff (reply : ConfigReply) (memory : Allocations) :
    ConfigSafe reply memory ↔ WholeRecords reply.bytes :=
  ⟨wholeRecords_of_safe,fun hwhole => safe_of_wholeRecords hwhole memory⟩

/-- One chunk is announced and missing. -/
theorem truncatedConfig_not_safe :
    ¬ConfigSafe (.datagram [1,0xbb,5,0,0,1] (by decide)) clearedMemory := by
  rintro ⟨result,hall⟩
  have hnone : configure (.datagram [1,0xbb,5,0,0,1] (by decide)) clearedMemory 721 = none := by
    decide +kernel
  have hsome := hall 721 (by decide)
  rw [hnone] at hsome
  cases hsome

end Pyrn.Canonair
