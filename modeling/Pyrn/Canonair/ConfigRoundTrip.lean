import Pyrn.Canonair.ConfigLoop
import Pyrn.Server.UdpDataServer
import Mathlib.Data.List.GetD

/-!
# The round trip of a configuration

The parse loop of the client walks over the records that `getConfig` has packed and keeps the
calculators that follow the rule for chunks, up to the number of recorders there is room for.
-/

namespace Pyrn.Canonair

open Pyrn.Can Pyrn.Server PackedStruct LittleEndian

section Encoding

/-- A 32-bit address and at most 57 chunks of a byte start and a byte length. -/
structure InRange (c : Calc) : Prop where
  rxAdd : c.rxAdd < 256 ^ 4
  chunks_length : c.chunks.length ≤ 57
  chunk : ∀ chunk ∈ c.chunks, chunk.1 < 256 ^ 1 ∧ chunk.2 < 256 ^ 1

def chunkImage (chunks : List (Nat × Nat)) : List UInt8 :=
  chunks.flatMap fun chunk => image [(1,chunk.1),(1,chunk.2)]

def calcImage (c : Calc) : List UInt8 :=
  image [(4,c.rxAdd),(1,c.chunks.length)] ++ chunkImage c.chunks

/-- The configuration of some calculators. -/
def configImage (calcs : List Calc) : List UInt8 :=
  image [(1,calcs.length)] ++ calcs.flatMap calcImage

theorem chunkImage_length (chunks : List (Nat × Nat)) :
    (chunkImage chunks).length = 2 * chunks.length := by
  induction chunks with
  | nil => rfl
  | cons chunk chunks ih =>
    rw [chunkImage,List.flatMap_cons,List.length_append,← chunkImage,ih,image_length,
      List.length_cons]
    simp only [List.map_cons,List.map_nil,List.sum_cons,List.sum_nil]
    omega

theorem calcImage_length (c : Calc) : (calcImage c).length = 5 + 2 * c.chunks.length := by
  rw [calcImage,List.length_append,image_length,chunkImage_length]
  rfl

theorem packChunks_eq {chunks : List (Nat × Nat)}
    (h : ∀ chunk ∈ chunks, chunk.1 < 256 ^ 1 ∧ chunk.2 < 256 ^ 1) :
    (chunks.mapM fun chunk => pack [(1,chunk.1),(1,chunk.2)]).map List.flatten =
      some (chunkImage chunks) := by
  induction chunks with
  | nil => rfl
  | cons chunk chunks ih =>
    have hfits : Fits [(1,chunk.1),(1,chunk.2)] := by
      intro field hmem
      have hchunk := h chunk List.mem_cons_self
      simp only [List.mem_cons,List.not_mem_nil,or_false] at hmem
      rcases hmem with rfl | rfl
      · exact hchunk.1
      · exact hchunk.2
    have hrest := ih fun other hmem => h other (List.mem_cons_of_mem _ hmem)
    obtain ⟨parts,hparts,hflat⟩ := Option.map_eq_some_iff.mp hrest
    rw [List.mapM_cons,pack_of_fits hfits,hparts]
    simp only [Option.bind_eq_bind,Option.bind_some,Option.pure_def,Option.map_some,
      List.flatten_cons]
    rw [hflat]
    rfl

theorem packCalcs_eq {calcs : List Calc} (h : ∀ c ∈ calcs, InRange c) :
    packCalcs calcs = some (calcs.flatMap calcImage) := by
  induction calcs with
  | nil => rfl
  | cons c calcs ih =>
    have hc := h c List.mem_cons_self
    have hfits : Fits [(4,c.rxAdd),(1,c.chunks.length)] := by
      intro field hmem
      have hmany := hc.chunks_length
      simp only [List.mem_cons,List.not_mem_nil,or_false] at hmem
      rcases hmem with rfl | rfl
      · exact hc.rxAdd
      · dsimp only
        omega
    obtain ⟨parts,hparts,hflat⟩ := Option.map_eq_some_iff.mp (packChunks_eq hc.chunk)
    rw [packCalcs,pack_of_fits hfits,hparts,
      ih fun other hmem => h other (List.mem_cons_of_mem _ hmem)]
    simp only [Option.bind_eq_bind,Option.bind_some,Option.pure_def]
    rw [hflat,List.flatMap_cons,calcImage]

theorem length_le_flatMap_calcImage (calcs : List Calc) :
    5 * calcs.length ≤ (calcs.flatMap calcImage).length := by
  induction calcs with
  | nil => exact le_rfl
  | cons c calcs ih =>
    rw [List.flatMap_cons,List.length_append,calcImage_length,List.length_cons]
    omega

/-- The server packs the calculators of the configuration. -/
theorem getConfig_eq {multiConfig : List (List Calc)} {index : UInt8} {calcs : List Calc}
    (hcalcs : multiConfig[index.toNat]? = some calcs) (hrange : ∀ c ∈ calcs, InRange c)
    (hmany : calcs.length < 256 ^ 1) : getConfig multiConfig index = some (configImage calcs) := by
  have hfits : Fits [(1,calcs.length)] := by
    intro field hmem
    rw [List.mem_singleton.mp hmem]
    exact hmany
  rw [getConfig,hcalcs]
  simp only [Option.bind_eq_bind,Option.bind_some]
  rw [pack_of_fits hfits,packCalcs_eq hrange]
  rfl

end Encoding

section Decoding

/-- The data being built: what is written so far, and zeros behind it. -/
def filled (xs : List UInt8) : List UInt8 := xs ++ (List.replicate calcDataSz 0).drop xs.length

theorem store_filled {xs : List UInt8} {byte : UInt8} {off : Nat} (hoff : off = xs.length)
    (hfits : xs.length < calcDataSz) :
    Buffer.store (filled xs) off [byte] = some (filled (xs ++ [byte])) := by
  subst hoff
  apply Buffer.store_behind
  rw [List.length_append,List.length_replicate]
  exact hfits

theorem copyChunks_eq (config : Memory) {left c offset : Nat} {xs : List UInt8}
    (hxs : xs.length = sizeofCANRecorderCalculatorHeader + c * 2)
    (hfits : xs.length + 2 * left ≤ calcDataSz) :
    copyChunks config left c (filled xs,offset) =
      some (filled (xs ++ config.bytes offset (2 * left)),offset + 2 * left) := by
  induction left generalizing c offset xs with
  | zero =>
    rw [copyChunks]
    simp [Memory.bytes]
  | succ left ih =>
    have hstart : Buffer.store (filled xs)
        (sizeofCANRecorderCalculatorHeader + c * 2 : Nat) [config offset] =
        some (filled (xs ++ [config offset])) := store_filled hxs.symm (by omega)
    have hlen : Buffer.store (filled (xs ++ [config offset]))
        (sizeofCANRecorderCalculatorHeader + (c * 2 + 1) : Nat) [config (offset + 1)] =
        some (filled (xs ++ [config offset] ++ [config (offset + 1)])) := by
      apply store_filled
      · rw [List.length_append,List.length_singleton]
        omega
      · rw [List.length_append,List.length_singleton]
        omega
    rw [copyChunks,hstart]
    simp only [Option.bind_eq_bind,Option.bind_some]
    rw [hlen]
    simp only [Option.bind_some]
    rw [ih,bytes_two_mul_succ]
    · simp only [List.append_assoc,List.cons_append,List.nil_append]
      congr 2
      omega
    · simp only [List.length_append,List.length_singleton]
      omega
    · simp only [List.length_append,List.length_singleton]
      omega

theorem calcHeaderOf_length (config : Memory) (offset : Nat) :
    (calcHeaderOf config offset).length = 14 := image_length _

/-- The data built from a record is its header and its chunks. -/
theorem buildCalcData_eq (config : Memory) {offset : Nat}
    (hmany : (config (offset + 4)).toNat ≤ 57) :
    buildCalcData config offset =
      some (filled (calcHeaderOf config offset ++
        config.bytes (offset + 5) (2 * (config (offset + 4)).toNat)),
        offset + 5 + 2 * (config (offset + 4)).toNat) := by
  have hheader : Buffer.store (List.replicate calcDataSz 0) 0 (calcHeaderOf config offset) =
      some (filled (calcHeaderOf config offset)) := by
    apply Buffer.store_zero_of_le
    rw [calcHeaderOf_length,List.length_replicate]
    decide
  rw [buildCalcData,hheader]
  simp only [Option.bind_eq_bind,Option.bind_some]
  apply copyChunks_eq config
  · rw [calcHeaderOf_length]
    rfl
  · rw [calcHeaderOf_length,calcDataSz]
    omega

/-- The memory of a list of bytes with zeros behind it. -/
def memoryOf (calcData : List UInt8) : Memory := fun i => calcData.getD i 0

theorem bytes_memoryOf {front middle back : List UInt8} :
    (memoryOf (front ++ middle ++ back)).bytes front.length middle.length = middle := by
  apply List.ext_getElem
  · rw [Memory.bytes_length]
  · intro i _ hi
    simp only [Memory.bytes,List.getElem_map,List.getElem_range,memoryOf]
    rw [List.append_assoc,List.getD_append_right _ _ _ _ (Nat.le_add_right _ _),
      Nat.add_sub_cancel_left,List.getD_append _ _ _ _ hi,List.getD_eq_getElem _ _ hi]

end Decoding

section Records

/-- The rule for the chunks of a calculator. -/
def Accepted (c : Calc) : Prop :=
  (1 ≤ c.chunks.length ∧ c.chunks.length ≤ 7) ∧
    ∀ chunk ∈ c.chunks, chunk.1 ≤ 7 ∧ chunk.1 + chunk.2 ≤ 8

instance : DecidablePred Accepted := fun c =>
  inferInstanceAs (Decidable ((1 ≤ c.chunks.length ∧ c.chunks.length ≤ 7) ∧
    ∀ chunk ∈ c.chunks, chunk.1 ≤ 7 ∧ chunk.1 + chunk.2 ≤ 8))

/-- The address and the chunks of a calculator of the client. -/
def configured (recCalc : CANRecorderCalculator) : Calc :=
  ⟨recCalc.calcHeader.rxAddr.toNat,recCalc.recordEntries.map CANRecorderData.pair⟩

def chunkData (chunk : Nat × Nat) : CANRecorderData := ⟨UInt8.ofNat chunk.1,UInt8.ofNat chunk.2⟩

theorem chunkImage_eq (chunks : List (Nat × Nat)) :
    chunkImage chunks =
      (chunks.map chunkData).flatMap fun chunk => [chunk.start,chunk.len] := by
  rw [List.flatMap_map]
  rfl

variable {c : Calc}

theorem pair_chunkData {chunk : Nat × Nat} (h : chunk.1 < 256 ^ 1 ∧ chunk.2 < 256 ^ 1) :
    (chunkData chunk).pair = chunk := by
  have hstart : (UInt8.ofNat chunk.1).toNat = chunk.1 := by
    rw [UInt8.toNat_ofNat']
    exact Nat.mod_eq_of_lt h.1
  have hlen : (UInt8.ofNat chunk.2).toNat = chunk.2 := by
    rw [UInt8.toNat_ofNat']
    exact Nat.mod_eq_of_lt h.2
  rw [CANRecorderData.pair,chunkData,hstart,hlen]

/-- What a record in the configuration looks like from its offset on. -/
structure RecordAt (config : Memory) (offset : Nat) (c : Calc) : Prop where
  rxAdd : config.field offset 4 = c.rxAdd
  nChunks : (config (offset + 4)).toNat = c.chunks.length
  chunks : config.bytes (offset + 5) (2 * c.chunks.length) = chunkImage c.chunks

theorem recordAt_of_bytes {config : Memory} {offset : Nat} (hc : InRange c)
    (h : config.bytes offset (calcImage c).length = calcImage c) : RecordAt config offset c := by
  have himage : calcImage c =
      toBytes 4 c.rxAdd ++ (toBytes 1 c.chunks.length ++ chunkImage c.chunks) := by
    rw [calcImage,image_cons,image_cons,image_nil,List.append_nil,List.append_assoc]
  rw [himage] at h
  obtain ⟨haddr,hrest⟩ := bytes_append h
  obtain ⟨hcount,hchunks⟩ := bytes_append hrest
  rw [toBytes_length] at haddr hcount hchunks
  rw [toBytes_length,chunkImage_length] at hchunks
  refine ⟨?_,?_,hchunks⟩
  · rw [Memory.field,haddr,ofBytes_toBytes_of_lt hc.rxAdd]
  · have hbyte : config (offset + 4) = UInt8.ofNat c.chunks.length := (List.cons.inj hcount).1
    have hmany := hc.chunks_length
    rw [hbyte,UInt8.toNat_ofNat']
    omega

/-- The calculator built from a record is ready exactly when the record follows the rule, and
then has its address and its chunks. -/
theorem setData_recordAt {config : Memory} {offset : Nat} (hc : InRange c)
    (h : RecordAt config offset c) (fresh : CANRecorderCalculator) :
    let recCalc := (fresh.setData (memoryOf (filled (calcHeaderOf config offset ++
      config.bytes (offset + 5) (2 * (config (offset + 4)).toNat))))).object
    (recCalc.ready = true ↔ Accepted c) ∧ (Accepted c → configured recCalc = c) := by
  intro recCalc
  let buff : Memory := memoryOf (filled (calcHeaderOf config offset ++
    config.bytes (offset + 5) (2 * (config (offset + 4)).toNat)))
  have htype : buff 0 = canRecorderHdrType := rfl
  have hcount : buff 13 = config (offset + 4) := UInt8.ofNat_toNat
  have hfield : buff.field 7 4 = c.rxAdd := by
    have hbytes : buff.bytes 7 4 = toBytes 4 (config.field offset 4) := rfl
    rw [Memory.field,hbytes,h.rxAdd,ofBytes_toBytes_of_lt hc.rxAdd]
  have hchunks : buff.bytes 14 (2 * c.chunks.length) =
      (c.chunks.map chunkData).flatMap fun chunk => [chunk.start,chunk.len] := by
    have hmiddle : buff.bytes (calcHeaderOf config offset).length (config.bytes (offset + 5)
        (2 * (config (offset + 4)).toNat)).length = config.bytes (offset + 5)
        (2 * (config (offset + 4)).toNat) := bytes_memoryOf
    rw [calcHeaderOf_length,Memory.bytes_length,h.nChunks,h.chunks,chunkImage_eq] at hmiddle
    exact hmiddle
  have hn : (buff 13).toNat = c.chunks.length := by rw [hcount,h.nChunks]
  have hentries : CANRecorderCalculator.entriesOf buff (buff 13) = c.chunks.map chunkData := by
    apply entriesOf_eq
    · rw [List.length_map,hn]
    · rw [List.length_map]
      exact hchunks
  have hrule : Accepted c ↔ Parsable buff ∧ ∀ entry ∈ c.chunks.map chunkData, entry.InFrame := by
    rw [Accepted,Parsable,hn,List.forall_mem_map]
    apply and_congr_right
    intro _
    apply forall₂_congr
    intro chunk hmem
    have hpair := Prod.ext_iff.mp (pair_chunkData (hc.chunk chunk hmem))
    rw [CANRecorderData.InFrame,← hpair.1,← hpair.2]
    rfl
  by_cases hparse : Parsable buff
  · have hset : recCalc = ⟨true,CANRecorderCalculator.validEntries (c.chunks.map chunkData),
        .read buff,c.chunks.map chunkData⟩ := by
      rw [← hentries]
      exact congrArg SetDataResult.object (setData_of_parsable fresh htype hparse)
    constructor
    · rw [hset,hrule,CANRecorderCalculator.ready,validEntries_iff]
      exact ⟨fun hvalid => ⟨hparse,hvalid⟩,fun hvalid => hvalid.2⟩
    · intro _
      have haddr : (UInt32.ofNat (buff.field 7 4)).toNat = c.rxAdd := by
        rw [hfield,UInt32.toNat_ofNat']
        exact Nat.mod_eq_of_lt hc.rxAdd
      have hpairs : (c.chunks.map chunkData).map CANRecorderData.pair = c.chunks := by
        rw [List.map_map]
        calc
          c.chunks.map (CANRecorderData.pair ∘ chunkData) = c.chunks.map id :=
            List.map_congr_left fun chunk hmem => pair_chunkData (hc.chunk chunk hmem)
          _ = c.chunks := List.map_id _
      rw [hset,configured,hpairs]
      exact congrArg (fun rxAdd => Calc.mk rxAdd c.chunks) haddr
  · obtain ⟨object,hset,hready⟩ := setData_of_not_parsable fresh htype hparse
    have hobject : recCalc = object := congrArg SetDataResult.object hset
    have hbroken : ¬Accepted c := fun haccepted => hparse (hrule.mp haccepted).1
    constructor
    · rw [hobject,hready]
      exact iff_of_false Bool.false_ne_true hbroken
    · exact fun haccepted => absurd haccepted hbroken

/-- A round consumes its record and keeps the calculator if the record follows the rule. -/
theorem configRound_recordAt {config : Memory} {st : ConfigState} (hc : InRange c)
    (h : RecordAt config st.offset c) (fresh : CANRecorderCalculator) :
    ∃ next, configRound config fresh st = some next ∧
      next.offset = st.offset + (calcImage c).length ∧ next.starts = st.starts ++ [st.offset] ∧
      next.recCalcs.map configured =
        st.recCalcs.map configured ++ (if Accepted c then [c] else []) := by
  have hmany : (config (st.offset + 4)).toNat ≤ 57 := by
    rw [h.nChunks]
    exact hc.chunks_length
  let recCalc : CANRecorderCalculator := (fresh.setData (memoryOf (filled
    (calcHeaderOf config st.offset ++
      config.bytes (st.offset + 5) (2 * (config (st.offset + 4)).toNat))))).object
  have hdata : (recCalc.ready = true ↔ Accepted c) ∧ (Accepted c → configured recCalc = c) :=
    setData_recordAt hc h fresh
  have hround : configRound config fresh st =
      some ⟨st.offset + 5 + 2 * (config (st.offset + 4)).toNat,st.starts ++ [st.offset],
        if recCalc.ready = true then st.recCalcs ++ [recCalc] else st.recCalcs⟩ := by
    rw [configRound,buildCalcData_eq config hmany]
    rfl
  refine ⟨_,hround,?_,rfl,?_⟩
  · rw [calcImage_length,h.nChunks,Nat.add_assoc]
  · by_cases haccepted : Accepted c
    · have hkept := hdata.1.mpr haccepted
      dsimp only
      rw [if_pos haccepted,if_pos hkept,List.map_append,List.map_singleton,hdata.2 haccepted]
    · have hdropped : ¬recCalc.ready = true := fun hready => haccepted (hdata.1.mp hready)
      dsimp only
      rw [if_neg haccepted,if_neg hdropped,List.append_nil]

end Records

section Runs

/-- The offset of the record behind the first `k` records. -/
def recordOffset (calcs : List Calc) (k : Nat) : Nat :=
  1 + ((calcs.take k).flatMap calcImage).length

/-- The loop from a record on: it consumes records one after the other until there are none
left or no more recorders can be made. -/
theorem parseConfig_from {config : Memory} (fresh : Nat → CANRecorderCalculator)
    {calcs : List Calc} {st : ConfigState} {l : Nat} (hrange : ∀ c ∈ calcs, InRange c)
    (hbytes : config.bytes st.offset (calcs.flatMap calcImage).length = calcs.flatMap calcImage)
    (hl : l = st.offset + (calcs.flatMap calcImage).length)
    (hroom : st.recCalcs.length ≤ nMaxRecs) :
    ∃ k final, k ≤ calcs.length ∧
      (∀ fuel, calcs.length < fuel → parseConfig config l fresh fuel st = some final) ∧
      final.offset = st.offset + ((calcs.take k).flatMap calcImage).length ∧
      final.starts = st.starts ++ (List.range k).map
        (fun j => st.offset + ((calcs.take j).flatMap calcImage).length) ∧
      (k = calcs.length ∨ final.recCalcs.length = nMaxRecs) ∧
      final.recCalcs.map configured =
        st.recCalcs.map configured ++
          (calcs.filter (Accepted ·)).take (nMaxRecs - st.recCalcs.length) := by
  induction calcs generalizing st with
  | nil =>
    refine ⟨0,st,le_rfl,?_,by simp,by simp,.inl rfl,by simp⟩
    intro fuel hfuel
    obtain ⟨fuel,rfl⟩ := Nat.exists_eq_succ_of_ne_zero (Nat.ne_zero_of_lt hfuel)
    have hend : ¬(st.offset : Int) < l := by
      rw [hl]
      simp
    rw [parseConfig,if_neg hend]
  | cons c calcs ih =>
    rw [List.flatMap_cons] at hbytes hl
    rw [List.length_append] at hl
    have hc := hrange c List.mem_cons_self
    have hmore : (st.offset : Int) < l := by
      have hsize := calcImage_length c
      omega
    obtain ⟨hrecord,hlater⟩ := bytes_append hbytes
    by_cases hfree : st.recCalcs.length < nMaxRecs
    · obtain ⟨next,hround,hoffset,hstarts,hkept⟩ :=
        configRound_recordAt hc (recordAt_of_bytes hc hrecord) (fresh st.starts.length)
      have hcount : next.recCalcs.length =
          st.recCalcs.length + (if Accepted c then [c] else []).length := by
        have hlen := congrArg List.length hkept
        rwa [List.length_append,List.length_map,List.length_map] at hlen
      have hcount_le : (if Accepted c then [c] else []).length ≤ 1 := by
        split_ifs <;> simp
      obtain ⟨k,final,hk,hrun,hfinal,htrace,hstop,hrecs⟩ :=
        ih (fun other hmem => hrange other (List.mem_cons_of_mem _ hmem))
          (by rw [hoffset]; exact hlater) (by omega) (by omega)
      refine ⟨k + 1,final,Nat.succ_le_succ hk,?_,?_,?_,?_,?_⟩
      · intro fuel hfuel
        obtain ⟨fuel,rfl⟩ := Nat.exists_eq_succ_of_ne_zero (Nat.ne_zero_of_lt hfuel)
        rw [parseConfig,if_pos hmore,if_pos hfree,hround]
        exact hrun fuel (Nat.lt_of_succ_lt_succ hfuel)
      · rw [hfinal,hoffset,List.take_succ_cons,List.flatMap_cons,List.length_append,Nat.add_assoc]
      · rw [htrace,hstarts,hoffset,List.range_succ_eq_map,List.map_cons,List.map_map,
          List.append_assoc]
        simp [Function.comp_def,Nat.add_assoc]
      · rcases hstop with hall | hfull
        · exact .inl (congrArg Nat.succ hall)
        · exact .inr hfull
      · rw [hrecs,hkept,List.append_assoc,hcount,List.append_right_inj]
        by_cases haccepted : Accepted c
        · have hleft : nMaxRecs - st.recCalcs.length = nMaxRecs - (st.recCalcs.length + 1) + 1 := by
            omega
          rw [if_pos haccepted,List.filter_cons_of_pos (by simpa using haccepted),hleft,
            List.take_succ_cons,List.length_singleton,List.singleton_append]
        · rw [if_neg haccepted,List.filter_cons_of_neg (by simpa using haccepted),List.length_nil,
            Nat.add_zero,List.nil_append]
    · have hfull : st.recCalcs.length = nMaxRecs := by omega
      refine ⟨0,st,Nat.zero_le _,?_,by simp,by simp,.inr hfull,?_⟩
      · intro fuel hfuel
        obtain ⟨fuel,rfl⟩ := Nat.exists_eq_succ_of_ne_zero (Nat.ne_zero_of_lt hfuel)
        rw [parseConfig,if_pos hmore,if_neg hfree]
      · rw [hfull,Nat.sub_self,List.take_zero,List.append_nil]

end Runs

/-- For every list of calculators whose configuration fits the buffer, the loop consumes the
records one after the other and keeps the first 32 calculators that follow the rule. -/
theorem config_roundTrip (multiConfig : List (List Calc)) (index : UInt8) (calcs : List Calc)
    (config : Memory) (fresh : Nat → CANRecorderCalculator)
    (hcalcs : multiConfig[index.toNat]? = some calcs) (hrange : ∀ c ∈ calcs, InRange c)
    (hsize : (configImage calcs).length ≤ recDtaSz)
    (hreceived : config.bytes 0 (configImage calcs).length = configImage calcs) :
    getConfig multiConfig index = some (configImage calcs) ∧
    ∃ k final, k ≤ calcs.length ∧
      (∀ fuel > recDtaSz, parseConfig config (configImage calcs).length fresh fuel ⟨1,[],[]⟩ =
        some final) ∧
      final.offset = recordOffset calcs k ∧
      final.starts = (List.range k).map (recordOffset calcs) ∧
      (k = calcs.length ∨ final.recCalcs.length = nMaxRecs) ∧
      final.recCalcs.map configured = (calcs.filter (Accepted ·)).take nMaxRecs := by
  rw [configImage,recDtaSz] at hsize
  rw [configImage] at hreceived
  have hmany := length_le_flatMap_calcImage calcs
  rw [List.length_append] at hsize
  obtain ⟨-,hbytes⟩ := bytes_append hreceived
  have hcount : (image [(1,calcs.length)]).length = 1 := image_length _
  rw [hcount,Nat.zero_add] at hbytes
  rw [hcount] at hsize
  refine ⟨getConfig_eq hcalcs hrange (by omega),?_⟩
  have hrun := @parseConfig_from config fresh calcs ⟨1,[],[]⟩ (configImage calcs).length hrange
    hbytes (by rw [configImage,List.length_append,hcount]) (Nat.zero_le _)
  obtain ⟨k,final,hk,hparse,hoffset,hstarts,hstop,hrecs⟩ := hrun
  refine ⟨k,final,hk,fun fuel hfuel => hparse fuel (by rw [recDtaSz] at hfuel; omega),hoffset,
    hstarts,hstop,?_⟩
  rw [hrecs]
  rfl

/-- A calculator with one chunk, and one without chunks. -/
def twoCalcs : List Calc := [⟨0x7E8,[(0,2)]⟩,⟨0x5BB,[]⟩]

theorem config_roundTrip_twoCalcs :
    getConfig [twoCalcs] 0 = some (configImage twoCalcs) ∧
    ∃ final, parseConfig (memoryOf (configImage twoCalcs)) (configImage twoCalcs).length
        (fun _ => ⟨false,false,⟨0,0,0,0,0,0,0⟩,[]⟩) 1000 ⟨1,[],[]⟩ = some final ∧
      final.recCalcs.map configured = [⟨0x7E8,[(0,2)]⟩] := by
  have hrange : ∀ c ∈ twoCalcs, InRange c := by
    intro c hmem
    simp only [twoCalcs,List.mem_cons,List.not_mem_nil,or_false] at hmem
    rcases hmem with rfl | rfl
    · exact ⟨by decide,by decide,by decide⟩
    · exact ⟨by decide,by decide,by decide⟩
  obtain ⟨hconf,k,final,-,hparse,-,-,-,hrecs⟩ := config_roundTrip [twoCalcs] 0 twoCalcs
    (memoryOf (configImage twoCalcs)) (fun _ => ⟨false,false,⟨0,0,0,0,0,0,0⟩,[]⟩) rfl hrange
    (by decide) (by decide)
  exact ⟨hconf,final,hparse 1000 (by decide),hrecs⟩

end Pyrn.Canonair
