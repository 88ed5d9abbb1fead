import Pyrn.Can.LearnedPeriod
import Pyrn.Server.DealtSlices

/-!
# The chunks of a recorded frame

The header of a record announces every chunk, but its body leaves out the chunks that do not fit,
and the parser deals the body out by position. The parser gets every chunk right or not at all
exactly when no chunk is stored behind one that is left out.
-/

namespace Pyrn.Canonair

open Pyrn.Can Pyrn.Server Transition CANRecorder

/-- The bytes of a chunk in a frame. -/
def chunkOf (frame : List UInt8) (entry : CANRecorderData) : List UInt8 :=
  (frame.drop entry.start.toNat).take entry.len.toNat

/-- Every chunk has no value, or the bytes of the frame as its only one. -/
def ChunksRight (frame : List UInt8) (entries : List CANRecorderData)
    (datas : List (List String)) : Prop :=
  List.Forall₂ (fun entry values => values = [] ∨ values = [hChunk (chunkOf frame entry)])
    entries datas

/-- The parser makes an entry of the record, and gets the chunks of the frame right. -/
def DecodedRight {Time : Type} (now : Time) (frame : List UInt8) (entries : List CANRecorderData)
    (record : List UInt8) : Prop :=
  ∃ fuel entry, parseRecord fuel now record = .ok (some entry) ∧
    ChunksRight frame entries entry.datas

/-- Behind the first chunk that does not fit there is none that does. -/
def StoresFirst : Nat → List CANRecorderData → Prop
  | _, [] => True
  | offset, entry :: rest =>
      if offset + entry.len.toNat < netFrameAllocSz then
        StoresFirst (offset + entry.len.toNat) rest
      else ∀ later ∈ rest, netFrameAllocSz ≤ offset + later.len.toNat

/-- A record that a capture gives out of a frame that the recorder took when it had learnt and
was empty; the frames between the two come too late. -/
structure CapturedFrame (built : CANRecorder) (msg : CANMessage) (record : List UInt8) where
  before : List RecorderCall
  idle : CANRecorder
  reached : ∃ outputs, run call built before = some (outputs,idle)
  learnt : idle.lStruct.isLearning = false
  empty : idle.nPoints = 0
  ID : UInt32
  tick : UInt32
  hears : idle.Hears ID msg
  during : List RecorderCall
  events : ∀ input ∈ during, ∃ ID msg tick, input = .event ID msg tick
  full : CANRecorder
  taken : ∃ outputs, run call idle (.event ID msg tick :: during) = some (outputs,full)
  len : Nat
  captured : ∃ last, full.capture len = some (record,last)
  nonempty : record ≠ []

section Kept

variable {frame : List UInt8}

theorem keptBytes_cons (offset : Nat) (entry : CANRecorderData) (rest : List CANRecorderData) :
    keptBytes frame offset (entry :: rest) =
      if offset + entry.len.toNat < netFrameAllocSz then
        chunkOf frame entry ++ keptBytes frame (offset + entry.len.toNat) rest
      else keptBytes frame offset rest := rfl

theorem chunkOf_length (hframe : frame.length = 8) {entry : CANRecorderData}
    (hentry : entry.InFrame) : (chunkOf frame entry).length = entry.len.toNat := by
  have hfits := hentry.2
  rw [chunkOf,List.length_take,List.length_drop,hframe]
  omega

theorem keptBytes_length (hframe : frame.length = 8) {entries : List CANRecorderData}
    (hentries : ∀ entry ∈ entries, entry.InFrame) (offset : Nat) :
    offset + (keptBytes frame offset entries).length = entries.foldl addLen offset := by
  induction entries generalizing offset with
  | nil => rfl
  | cons entry rest ih =>
    have hrest := fun later hmem => hentries later (List.mem_cons_of_mem _ hmem)
    rw [keptBytes_cons,List.foldl_cons,addLen]
    by_cases hroom : offset + entry.len.toNat < netFrameAllocSz
    · rw [if_pos hroom,if_pos hroom,List.length_append,
        chunkOf_length hframe (hentries entry List.mem_cons_self),← ih hrest,Nat.add_assoc]
    · rw [if_neg hroom,if_neg hroom,ih hrest]

theorem keptBytes_length_le (entries : List CANRecorderData) (offset : Nat) :
    (keptBytes frame offset entries).length ≤
      ((entries.map CANRecorderData.pair).map Prod.snd).sum := by
  induction entries generalizing offset with
  | nil => exact le_refl 0
  | cons entry rest ih =>
    have htake : (chunkOf frame entry).length ≤ entry.len.toNat := List.length_take_le _ _
    have hnext := ih (offset + entry.len.toNat)
    have hsame := ih offset
    rw [keptBytes_cons,List.map_cons,List.map_cons,List.sum_cons,CANRecorderData.pair]
    split_ifs
    · rw [List.length_append]
      omega
    · omega

/-- Nothing is kept exactly when nothing fits. -/
theorem keptBytes_eq_nil_iff (hframe : frame.length = 8) {entries : List CANRecorderData}
    (hentries : ∀ entry ∈ entries, entry.InFrame) (hpos : ∀ entry ∈ entries, 1 ≤ entry.len.toNat)
    (offset : Nat) : keptBytes frame offset entries = [] ↔
      ∀ entry ∈ entries, netFrameAllocSz ≤ offset + entry.len.toNat := by
  induction entries with
  | nil => simp [keptBytes]
  | cons entry rest ih =>
    have hrest := ih (fun later hmem => hentries later (List.mem_cons_of_mem _ hmem))
      fun later hmem => hpos later (List.mem_cons_of_mem _ hmem)
    have hlen := hpos entry List.mem_cons_self
    have hchunk := chunkOf_length hframe (hentries entry List.mem_cons_self)
    rw [keptBytes_cons,List.forall_mem_cons]
    by_cases hroom : offset + entry.len.toNat < netFrameAllocSz
    · rw [if_pos hroom]
      refine iff_of_false ?_ fun hall => absurd hall.1 (Nat.not_le.mpr hroom)
      intro hnone
      rw [(List.append_eq_nil_iff.mp hnone).1,List.length_nil] at hchunk
      omega
    · rw [if_neg hroom,hrest]
      exact ⟨fun hall => ⟨Nat.not_lt.mp hroom,hall⟩,fun hall => hall.2⟩

theorem hChunk_length (chunk : List UInt8) : (hChunk chunk).length = 2 * chunk.length := by
  have hfold (text : String) : (chunk.foldl (fun text c => text ++ formatByte c) text).length =
      text.length + 2 * chunk.length := by
    induction chunk generalizing text with
    | nil => rfl
    | cons c rest ih =>
      rw [List.foldl_cons,ih,String.length_append,List.length_cons,formatByte]
      simp
      omega
  rw [hChunk,hfold]
  simp

/-- The slices that the parser deals out of what has been kept are right exactly when no chunk is
kept behind one that is not. -/
theorem dealt_right_iff (hframe : frame.length = 8) {entries : List CANRecorderData}
    (hentries : ∀ entry ∈ entries, entry.InFrame) (hpos : ∀ entry ∈ entries, 1 ≤ entry.len.toNat)
    {offset : Nat} (hoffset : offset < netFrameAllocSz) :
    ChunksRight frame entries
        (dealt (entries.map CANRecorderData.pair) (keptBytes frame offset entries)) ↔
      StoresFirst offset entries := by
  induction entries generalizing offset with
  | nil => exact iff_of_true List.Forall₂.nil trivial
  | cons entry rest ih =>
    have hframes := fun later hmem => hentries later (List.mem_cons_of_mem _ hmem)
    have hlens := fun later hmem => hpos later (List.mem_cons_of_mem _ hmem)
    have hlen := hpos entry List.mem_cons_self
    have hchunk := chunkOf_length hframe (hentries entry List.mem_cons_self)
    rw [ChunksRight,List.map_cons,dealt,List.forall₂_cons,StoresFirst,keptBytes_cons]
    by_cases hroom : offset + entry.len.toNat < netFrameAllocSz
    · have hsome : chunkOf frame entry ++ keptBytes frame (offset + entry.len.toNat) rest ≠ [] := by
        intro hnone
        rw [(List.append_eq_nil_iff.mp hnone).1,List.length_nil] at hchunk
        omega
      have hsnd : entry.pair.2 = (chunkOf frame entry).length := hchunk.symm
      rw [if_pos hroom,if_pos hroom,if_neg hsome,hsnd,List.take_left,List.drop_left,
        and_iff_right (Or.inr rfl)]
      exact ih hframes hlens hroom
    · rw [if_neg hroom,if_neg hroom,← keptBytes_eq_nil_iff hframe hframes hlens]
      by_cases hnone : keptBytes frame offset rest = []
      · refine iff_of_true ?_ hnone
        rw [hnone,if_pos rfl,List.drop_nil,dealt_nil,List.map_map,List.forall₂_map_right_iff,
          List.forall₂_same]
        exact ⟨Or.inl rfl,fun _ _ => Or.inl rfl⟩
      · -- the chunk that was left out gets the few bytes of the later ones
        refine iff_of_false ?_ hnone
        rw [if_neg hnone]
        rintro ⟨hfirst,-⟩
        have hlength := keptBytes_length hframe hframes offset
        have hlt := foldl_addLen_lt rest hoffset
        have hshort : (keptBytes frame offset rest).length < entry.len.toNat := by omega
        have htake : (keptBytes frame offset rest).take entry.pair.2 =
            keptBytes frame offset rest := List.take_of_length_le (Nat.le_of_lt hshort)
        rcases hfirst with hempty | hvalue
        · cases hempty
        · rw [htake,List.singleton_inj] at hvalue
          have hlengths := congrArg String.length hvalue
          rw [hChunk_length,hChunk_length,hchunk] at hlengths
          omega

end Kept

section Runs

variable {st st' : CANRecorder} {input : RecorderCall} {output : List UInt8}

/-- The header of the frame announces the entries. -/
structure Announces (st : CANRecorder) : Prop where
  sound : st.Sound
  header : announced st.calculator <+: st.dataResult.drop netFrameHeaderSize

/-- The two fields in front of the announced entries do not reach them. -/
theorem drop_header {dataResult : List UInt8} (hlength : dataResult.length = netFrameAllocSz)
    {off : Nat} (hoff : off ≤ 6) (value : Nat) :
    (Buffer.splice dataResult off (LittleEndian.toBytes 2 value)).drop netFrameHeaderSize =
      dataResult.drop netFrameHeaderSize := by
  rw [netFrameAllocSz] at hlength
  apply Buffer.drop_splice
  · rw [LittleEndian.toBytes_length]
    omega
  · rw [LittleEndian.toBytes_length,netFrameHeaderSize]
    omega

/-- What an empty recorder makes of a frame. -/
theorem Announces.takes (hst : Announces st) {ID : UInt32} {msg : CANMessage} {tick : UInt32}
    (hhears : st.Hears ID msg) (hlearning : st.lStruct.isLearning ≠ true)
    (hempty : st.nPoints = 0) : ∃ st', st.event ID msg tick = some st' ∧
      st'.calculator = st.calculator ∧ st'.lStruct = st.lStruct ∧ st'.nPoints = 1 ∧
      announced st.calculator ++
          keptBytes msg.data (headerSize st.calculator) st.calculator.recordEntries <+:
        st'.dataResult.drop netFrameHeaderSize := by
  obtain ⟨stored,hevent,-,hkept⟩ := @event_of_empty st ID msg tick hst.sound hhears hlearning
    hempty _ hst.header (headerSize_eq hst.sound.valid)
  exact ⟨_,hevent,rfl,rfl,rfl,hkept⟩

theorem Announces.call (hst : Announces st) (hcall : st.call input = some (output,st')) :
    Announces st' ∧ st'.calculator = st.calculator := by
  obtain ⟨output',next,hnext,hsound,hsame⟩ := call_sound hst.sound input
  cases hcall.symm.trans hnext
  suffices hheader : announced st.calculator <+: st'.dataResult.drop netFrameHeaderSize by
    exact ⟨⟨hsound,hsame ▸ hheader⟩,hsame⟩
  have hlength := hst.sound.dataResult_length
  cases input with
  | capture len =>
    rw [CANRecorder.call] at hcall
    by_cases hready : st.lStruct.isLearning = false ∧ st.nPoints ≠ 0
    · by_cases hlen : len > st.offset
      · rw [capture_of_ready hst.sound hready hlen] at hcall
        cases hcall
        rw [drop_header hlength (le_refl 6)]
        exact hst.header
      · rw [capture_of_small hready hlen] at hcall
        cases hcall
        exact hst.header
    · rw [capture_of_not_ready hready] at hcall
      cases hcall
      exact hst.header
  | event ID msg tick =>
    rw [CANRecorder.call,Option.map_eq_some_iff] at hcall
    obtain ⟨next,hevent,hnext⟩ := hcall
    cases hnext
    by_cases hhears : st.Hears ID msg
    · by_cases hlearning : st.lStruct.isLearning = true
      · rw [event_of_learning hhears hlearning] at hevent
        by_cases hn : st.lStruct.nTicks = 0
        · rw [learn_of_done hn hst.sound.tmp_length hlength] at hevent
          cases hevent
          rw [drop_header hlength (by decide)]
          exact hst.header
        · by_cases hold : st.lStruct.oldTick = 0
          · rw [learn_of_not_started hn hold] at hevent
            cases hevent
            exact hst.header
          · rw [learn_of_started hn hold
              (hst.sound.nTicks_le.trans_eq hst.sound.tmp_length.symm)] at hevent
            cases hevent
            exact hst.header
      · by_cases hempty : st.nPoints = 0
        · obtain ⟨taken,htaken,-,-,-,hkept⟩ :=
            @Announces.takes st hst ID msg tick hhears hlearning hempty
          cases hevent.symm.trans htaken
          exact (List.prefix_append _ _).trans hkept
        · rw [event_of_full hlearning (by rw [hst.sound.nPointsMax]; omega)] at hevent
          cases hevent
          exact hst.header
    · rw [event_of_not_hears hhears] at hevent
      cases hevent
      exact hst.header

theorem Announces.run {calls : List RecorderCall} {outputs : List (List UInt8)}
    (hst : Announces st) (hrun : Transition.run CANRecorder.call st calls = some (outputs,st')) :
    Announces st' ∧ st'.calculator = st.calculator := by
  induction calls generalizing st outputs with
  | nil =>
    cases hrun
    exact ⟨hst,rfl⟩
  | cons input calls ih =>
    obtain ⟨output,next,hcall,-⟩ := call_sound hst.sound input
    obtain ⟨rest,-,hrest⟩ := (run_cons_eq_some_iff hcall).mp hrun
    obtain ⟨hnext,hsame⟩ := hst.call hcall
    obtain ⟨hlast,hkept⟩ := ih hnext hrest
    exact ⟨hlast,hkept.trans hsame⟩

/-- A recorder that holds a frame ignores the frames that come before the next capture. -/
theorem run_events_of_full {calls : List RecorderCall} {outputs : List (List UInt8)}
    (hevents : ∀ input ∈ calls, ∃ ID msg tick, input = .event ID msg tick)
    (hlearning : st.lStruct.isLearning ≠ true) (hfull : ¬st.nPoints < st.nPointsMax)
    (hrun : Transition.run CANRecorder.call st calls = some (outputs,st')) : st' = st := by
  induction calls generalizing outputs with
  | nil =>
    cases hrun
    rfl
  | cons input calls ih =>
    obtain ⟨ID,msg,tick,rfl⟩ := hevents input List.mem_cons_self
    have hcall : st.call (.event ID msg tick) = some ([],st) := by
      rw [CANRecorder.call,event_of_full hlearning hfull]
      rfl
    obtain ⟨rest,-,hrest⟩ := (run_cons_eq_some_iff hcall).mp hrun
    exact ih (fun other hmem => hevents other (List.mem_cons_of_mem _ hmem)) hrest

/-- A captured record: behind its first fields lie what the header announces and what has been
kept of the frame. -/
theorem CapturedFrame.record_eq {built : CANRecorder} {msg : CANMessage} {record : List UInt8}
    (frame : CapturedFrame built msg record) (hbuilt : Announces built) :
    netFrameHeaderSize ≤ record.length ∧ record.drop netFrameHeaderSize =
      announced built.calculator ++
        keptBytes msg.data (headerSize built.calculator) built.calculator.recordEntries := by
  obtain ⟨outputs,hreached⟩ := frame.reached
  obtain ⟨hidle,hsame⟩ := hbuilt.run hreached
  have hlearning : frame.idle.lStruct.isLearning ≠ true := by simp [frame.learnt]
  obtain ⟨taken,hevent,hcalculator,hlStruct,hpoints,hkept⟩ :=
    @Announces.takes _ hidle frame.ID msg frame.tick frame.hears hlearning frame.empty
  have hcall : frame.idle.call (.event frame.ID msg frame.tick) = some ([],taken) := by
    rw [CANRecorder.call,hevent]
    rfl
  have htaken := (hidle.call hcall).1
  obtain ⟨outputs,htake⟩ := frame.taken
  obtain ⟨rest,-,hrest⟩ := (run_cons_eq_some_iff hcall).mp htake
  have hfull := run_events_of_full frame.events (by rwa [hlStruct])
    (by rw [hpoints,htaken.sound.nPointsMax]; exact lt_irrefl 1) hrest
  obtain ⟨last,hcapture⟩ := frame.captured
  rw [hfull] at hcapture
  have hready : taken.lStruct.isLearning = false ∧ taken.nPoints ≠ 0 :=
    ⟨by rw [hlStruct]; exact frame.learnt,by rw [hpoints]; exact Nat.one_ne_zero⟩
  have hsize : taken.offset = netFrameHeaderSize + (announced frame.idle.calculator ++
      keptBytes msg.data (headerSize frame.idle.calculator)
        frame.idle.calculator.recordEntries).length := by
    rcases htaken.sound.points with ⟨hnone,-⟩ | ⟨-,hoffset⟩
    · exact absurd hnone hready.2
    · have hvalid := hidle.sound.valid
      rw [hoffset,hcalculator,recordSize,← keptBytes_length msg.data_length hvalid.inFrame,
        List.length_append,← Nat.add_assoc,← headerSize_eq hvalid]
  have hlen : frame.len > taken.offset := by
    by_contra hsmall
    rw [capture_of_small hready hsmall] at hcapture
    cases hcapture
    exact frame.nonempty rfl
  have hresult := htaken.sound.dataResult_length
  have hlt := htaken.sound.offset_lt
  rw [capture_of_ready htaken.sound hready hlen] at hcapture
  cases hcapture
  rw [← hsame]
  constructor
  · rw [List.length_take,Buffer.splice_length
      (by rw [LittleEndian.toBytes_length,hresult,netFrameAllocSz]; omega),hresult]
    omega
  · have hwidth := Nat.sub_eq_of_eq_add' hsize
    rw [List.drop_take,drop_header hresult (le_refl 6),hwidth]
    exact (List.prefix_iff_eq_take.mp hkept).symm

end Runs

section Decoding

/-- The chunks that the parser reads behind the header. -/
theorem chunksAt_eq {record rest : List UInt8} {entries : List CANRecorderData} {base : Nat}
    (hrecord : record.drop base =
      (entries.flatMap fun entry => [entry.start,entry.len]) ++ rest) :
    ((List.range entries.length).map fun i =>
      ((record.getD (base + i * 2) 0).toNat,(record.getD (base + i * 2 + 1) 0).toNat)) =
        entries.map CANRecorderData.pair := by
  induction entries generalizing base with
  | nil => rfl
  | cons entry entries ih =>
    simp only [List.flatMap_cons,List.cons_append,List.nil_append] at hrecord
    have hget (i : Nat) : record.getD (base + i) 0 = (record.drop base).getD i 0 := by
      rw [List.getD_eq_getElem?_getD,List.getD_eq_getElem?_getD,List.getElem?_drop]
    have hstart : record.getD base 0 = entry.start := by
      have hfirst := hget 0
      rwa [hrecord] at hfirst
    have hlen : record.getD (base + 1) 0 = entry.len := by
      rw [hget,hrecord]
      rfl
    have hbehind : record.drop (base + 2) =
        (entries.flatMap fun entry => [entry.start,entry.len]) ++ rest := by
      rw [← List.drop_drop,hrecord]
      rfl
    rw [List.length_cons,List.range_succ_eq_map,List.map_cons,List.map_map,List.map_cons,
      ← ih hbehind]
    congr 1
    · rw [Nat.zero_mul,Nat.add_zero,hstart,hlen,CANRecorderData.pair]
    · apply List.map_congr_left
      intro i _
      have hoffset : base + (i + 1) * 2 = base + 2 + i * 2 := by omega
      simp only [Function.comp_apply,Nat.succ_eq_add_one,hoffset]

variable {calculator : CANRecorderCalculator} {frame record : List UInt8}

/-- The parser deals what has been kept out to the chunks that the header announces. -/
theorem parseRecord_announced {Time : Type} (fuel : Nat) (now : Time) (hvalid : calculator.Valid)
    (hchunks : 0 < calculator.calcHeader.nChunks.toNat) {kept : List UInt8}
    (hheader : netFrameHeaderSize ≤ record.length)
    (hrecord : record.drop netFrameHeaderSize = announced calculator ++ kept) :
    ∃ rxAdd, parseRecord fuel now record =
      (dealData (calculator.recordEntries.map CANRecorderData.pair) kept fuel 0 0
        ((calculator.recordEntries.map CANRecorderData.pair).map fun _ => [])).map fun datas =>
          some ⟨addressOf rxAdd,calculator.recordEntries.map CANRecorderData.pair,datas,now⟩ := by
  have hlength : record.length = headerSize calculator + kept.length := by
    have hdrop := congrArg List.length hrecord
    rw [List.length_drop,List.length_append] at hdrop
    rw [headerSize_eq hvalid]
    omega
  have hcount : nChunksOf record = calculator.calcHeader.nChunks.toNat := by
    have hget : record.getD 8 0 = (record.drop netFrameHeaderSize).getD 0 0 := by
      rw [List.getD_eq_getElem?_getD,List.getD_eq_getElem?_getD,List.getElem?_drop]
      rfl
    rw [nChunksOf,hget,hrecord]
    rfl
  have hbehind : record.drop 9 = (calculator.recordEntries.flatMap fun entry =>
      [entry.start,entry.len]) ++ kept := by
    rw [show 9 = netFrameHeaderSize + 1 from rfl,← List.drop_drop,hrecord]
    rfl
  have hsize : 9 + nChunksOf record * 2 = headerSize calculator := by
    rw [hcount]
    rfl
  have hentries : chunksOf record = calculator.recordEntries.map CANRecorderData.pair := by
    rw [chunksOf,hcount,← hvalid.entries_length,chunksAt_eq hbehind]
  have hraw : record.drop (9 + nChunksOf record * 2) = kept := by
    have hfront : (calculator.recordEntries.flatMap fun entry => [entry.start,entry.len]).length =
        nChunksOf record * 2 := by
      simp [List.length_flatMap,hvalid.entries_length,hcount]
    rw [← List.drop_drop,hbehind]
    exact List.drop_left' hfront
  have hfine : ¬Raises record := by
    rw [Raises,hsize,hlength,headerSize,netFrameHeaderSize]
    omega
  obtain ⟨rxAdd,hparsed⟩ := parseRecord_eq hfine fuel now
  rw [hentries,hraw,hcount,if_pos (Nat.ne_of_gt hchunks)] at hparsed
  exact ⟨rxAdd,hparsed⟩

/-- Decoding a record comes down to dealing out what has been kept. -/
theorem decodedRight_iff {Time : Type} (now : Time) (hvalid : calculator.Valid)
    (hchunks : 0 < calculator.calcHeader.nChunks.toNat)
    (hpos : ∀ entry ∈ calculator.recordEntries, 1 ≤ entry.len.toNat) {kept : List UInt8}
    (hkept : kept.length ≤ ((calculator.recordEntries.map CANRecorderData.pair).map Prod.snd).sum)
    (hheader : netFrameHeaderSize ≤ record.length)
    (hrecord : record.drop netFrameHeaderSize = announced calculator ++ kept) :
    DecodedRight now frame calculator.recordEntries record ↔
      ChunksRight frame calculator.recordEntries
        (dealt (calculator.recordEntries.map CANRecorderData.pair) kept) := by
  have hlens : ∀ chunk ∈ calculator.recordEntries.map CANRecorderData.pair, 1 ≤ chunk.2 := by
    intro chunk hmem
    obtain ⟨entry,hentry,rfl⟩ := List.mem_map.mp hmem
    exact hpos entry hentry
  let enough : Nat := (calculator.recordEntries.map CANRecorderData.pair).length + 1
  constructor
  · rintro ⟨fuel,entry,hentry,hright⟩
    obtain ⟨rxAdd,hfuel⟩ := parseRecord_announced fuel now hvalid hchunks hheader hrecord
    cases hdeal : dealData (calculator.recordEntries.map CANRecorderData.pair) kept fuel 0 0
        ((calculator.recordEntries.map CANRecorderData.pair).map fun _ => []) with
    | error failure =>
      rw [hdeal] at hfuel
      cases hentry.symm.trans hfuel
    | ok datas =>
      have hmore := dealData_stable (Nat.le_max_left fuel enough) hdeal
      rw [dealData_eq hlens hkept (lt_of_lt_of_le (Nat.lt_succ_self _)
        (Nat.le_max_right fuel enough))] at hmore
      rw [hdeal] at hfuel
      cases hentry.symm.trans hfuel
      cases hmore
      exact hright
  · intro hright
    obtain ⟨rxAdd,hfuel⟩ := parseRecord_announced enough now hvalid hchunks hheader hrecord
    rw [dealData_eq hlens hkept (Nat.lt_succ_self _)] at hfuel
    exact ⟨enough,_,hfuel,hright⟩

end Decoding

/-- For every calculator that is ready, with chunks that have bytes, and every frame that a
recorder built on it captures, the parser gets each chunk of the frame right or not at all
exactly when the calculator has no chunk that fits behind one that does not. -/
theorem recordedChunks_right_iff {Time : Type} (now : Time) (old : CANRecorderCalculator)
    (buff : Memory) (hready : (old.setData buff).object.ready = true)
    (hpos : ∀ entry ∈ (old.setData buff).object.recordEntries, 1 ≤ entry.len.toNat)
    (tmp : List UInt32) (htmp : tmp.length = canFramesToWait) (memory : List UInt8)
    (hmemory : memory.length = netFrameAllocSz) (built : CANRecorder)
    (hnew : CANRecorder.new (old.setData buff).object tmp memory = some built)
    (msg : CANMessage) (record : List UInt8) (captured : CapturedFrame built msg record) :
    DecodedRight now msg.data (old.setData buff).object.recordEntries record ↔
      StoresFirst (headerSize (old.setData buff).object)
        (old.setData buff).object.recordEntries := by
  have hvalid := CANRecorderCalculator.valid_of_ready old hready
  obtain ⟨dataResult,hbuilt,hlength,hannounced⟩ := new_eq hvalid tmp hmemory
  cases hnew.symm.trans hbuilt
  have hannounces : Announces (⟨(old.setData buff).object,true,⟨true,canFramesToWait,tmp,0⟩,
      dataResult,headerSize (old.setData buff).object,0,1⟩ : CANRecorder) :=
    ⟨⟨hvalid,rfl,htmp,le_refl _,hlength,rfl,Or.inl ⟨rfl,rfl⟩⟩,hannounced⟩
  obtain ⟨hheader,hrecord⟩ := captured.record_eq hannounces
  have hheaderSize := headerSize_le hvalid
  rw [decodedRight_iff now hvalid (CANRecorderCalculator.chunks_pos_of_ready old hready) hpos
    (keptBytes_length_le _ _) hheader hrecord]
  exact dealt_right_iff msg.data_length hvalid.inFrame hpos
    (by rw [netFrameAllocSz]; exact lt_of_le_of_lt hheaderSize (by decide))

/-- Seven chunks: the sixth does not fit behind the first five, the seventh does. -/
def sevenChunks : Memory := fun i =>
  [2,0,0,0,0,0,0,0xE8,7,0,0,0,0,7,0,8,0,8,0,8,0,8,0,7,0,8,0,1].getD i 0

def sevenCalculator : CANRecorderCalculator := (noCalculator.setData sevenChunks).object

def eightBytes : CANMessage := CANRecorder.steadyFrame

def sevenBuilt : CANRecorder :=
  (CANRecorder.new sevenCalculator (List.replicate 32 0) (List.replicate 64 0)).get
    (by decide +kernel)

def sevenLearnt : List (List UInt8) × CANRecorder :=
  (run call sevenBuilt steadyFrames).get (by decide +kernel)

def sevenTaken : List (List UInt8) × CANRecorder :=
  (run call sevenLearnt.2 [.event 1 eightBytes 0]).get (by decide +kernel)

def sevenCaptured : List UInt8 × CANRecorder :=
  (sevenTaken.2.capture 64).get (by decide +kernel)

/-- The frame `1,2,…,8`, captured with them. -/
def sevenFrame : CapturedFrame sevenBuilt eightBytes sevenCaptured.1 where
  before := steadyFrames
  idle := sevenLearnt.2
  reached := ⟨sevenLearnt.1,(Option.some_get (by decide +kernel)).symm⟩
  learnt := by decide +kernel
  empty := by decide +kernel
  ID := 1
  tick := 0
  hears := by decide +kernel
  during := []
  events := nofun
  full := sevenTaken.2
  taken := ⟨sevenTaken.1,(Option.some_get (by decide +kernel)).symm⟩
  len := 64
  captured := ⟨sevenCaptured.2,(Option.some_get (by decide +kernel)).symm⟩
  nonempty := by decide +kernel

theorem recordedChunks_right_iff_seven :
    DecodedRight () eightBytes.data sevenCalculator.recordEntries sevenCaptured.1 ↔
      StoresFirst (headerSize sevenCalculator) sevenCalculator.recordEntries :=
  recordedChunks_right_iff () noCalculator sevenChunks (by decide +kernel) (by decide +kernel)
    _ (by decide) _ (by decide) sevenBuilt (Option.some_get (by decide +kernel)).symm eightBytes
    sevenCaptured.1 sevenFrame

/-- The parser gives the sixth chunk the byte of the seventh. -/
theorem sevenChunks_decoded : ∃ entry,
    parseRecord 64 () sevenCaptured.1 = .ok (some entry) ∧
      sevenCalculator.recordEntries[5]? = some ⟨0,8⟩ ∧ entry.datas[5]? = some ["01"] ∧
      ¬ChunksRight eightBytes.data sevenCalculator.recordEntries entry.datas := by
  refine ⟨⟨.rxAdd 0x7E8,[(0,8),(0,8),(0,8),(0,8),(0,7),(0,8),(0,1)],
    [["0102030405060708"],["0102030405060708"],["0102030405060708"],["0102030405060708"],
      ["01020304050607"],["01"],[]],()⟩,?_,?_,rfl,?_⟩
  · rfl
  · decide +kernel
  · rw [ChunksRight]
    decide +kernel

end Pyrn.Canonair
