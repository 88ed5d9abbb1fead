import Pyrn.Canonair.CaptureLoop
import Pyrn.Server.DealtSlices
import Mathlib.Data.List.GetD

/-!
# The round trip of a captured datagram

What the capture loop sends is taken apart by `parseFrame` into one entry for each record, with
the chunks of the record and one slice of its data for each of them.
-/

namespace Pyrn.Canonair

open Pyrn.Can Pyrn.Server PackedStruct LittleEndian

/-- The datagram of some records. -/
def datagram (pktCount : UInt16) (records : List CapturedRecord) : List UInt8 :=
  [0x02] ++ toBytes 2 pktCount.toNat ++ records.flatMap CapturedRecord.framed

/-- The records that the loop adds to the captured ones. -/
def ownRecords (sample : ImuSample) (impact : Option GpsImpact) : List CapturedRecord :=
  imuRecord sample :: (impact.map gpsRecord).toList

section Building

/-- `recordData` after `memset` and the writing of `xs`. -/
def RecordData.written (xs : List UInt8) : RecordData :=
  ⟨xs ++ (List.replicate recDtaSz 0).drop xs.length,xs.length⟩

theorem write_written {xs ys : List UInt8} (hfits : (xs ++ ys).length ≤ recDtaSz) :
    (RecordData.written xs).write ys = some (.written (xs ++ ys)) := by
  have hstore : Buffer.store (xs ++ (List.replicate recDtaSz 0).drop xs.length) xs.length ys =
      some (xs ++ ys ++ (List.replicate recDtaSz 0).drop (xs ++ ys).length) := by
    apply Buffer.store_behind
    rw [List.length_replicate]
    exact hfits
  rw [RecordData.write,RecordData.written,hstore,RecordData.written,List.length_append]
  rfl

theorem capture_written {xs : List UInt8} {captures : List (List UInt8)} :
    (xs ++ (captures.filter fun buff => buff.length ≠ 0).flatMap fun buff =>
      toBytes 2 buff.length ++ buff).length ≤ recDtaSz →
    capture (.written xs) captures = some (.written (xs ++
      (captures.filter fun buff => buff.length ≠ 0).flatMap fun buff =>
        toBytes 2 buff.length ++ buff)) := by
  induction captures generalizing xs with
  | nil =>
    intro _
    rw [capture,List.filter_nil,List.flatMap_nil,List.append_nil]
  | cons buff later ih =>
    intro hfits
    by_cases hempty : buff.length ≠ 0
    · rw [List.filter_cons_of_pos (by simpa using hempty),List.flatMap_cons,← List.append_assoc,
        ← List.append_assoc] at hfits ⊢
      have hbuff : (xs ++ toBytes 2 buff.length ++ buff).length ≤ recDtaSz := by
        rw [List.length_append] at hfits
        omega
      have hsize : (xs ++ toBytes 2 buff.length).length ≤ recDtaSz := by
        rw [List.length_append] at hbuff
        omega
      rw [capture,if_pos hempty,write_written hsize]
      simp only [Option.bind_eq_bind,Option.bind_some]
      rw [write_written hbuff]
      exact ih hfits
    · rw [List.filter_cons_of_neg (by simpa using hempty)] at hfits ⊢
      rw [capture,if_neg hempty]
      exact ih hfits

theorem sendData_written (xs : List UInt8) :
    sendData (RecordData.written (0x02 :: xs)).bytes (RecordData.written (0x02 :: xs)).offset =
      some (0x02 :: xs) := by
  let back : List UInt8 := (List.replicate recDtaSz 0).drop (0x02 :: xs).length
  have hset : (0x02 :: xs ++ back).set 0 2 = 0x02 :: xs ++ back := rfl
  have hlen : (0x02 :: xs).length ≤ (0x02 :: xs ++ back).length := by
    rw [List.length_append]
    exact Nat.le_add_right _ _
  have hsend : sendData (0x02 :: xs ++ back) (0x02 :: xs).length = some (0x02 :: xs) := by
    rw [sendData,hset,Buffer.load_zero_of_le hlen,List.take_left]
  exact hsend

/-- The loop sends the captured records and its own. -/
theorem captureRound_eq {pktCount : UInt16} {captures : List (List UInt8)}
    {records : List CapturedRecord} {sample : ImuSample} {impact : Option GpsImpact}
    (hcaptures : (captures.filter fun buff => buff.length ≠ 0) = records.map CapturedRecord.body)
    (hsize : (datagram pktCount (records ++ ownRecords sample impact)).length ≤ recDtaSz) :
    captureRound pktCount captures sample impact =
      some (datagram pktCount (records ++ ownRecords sample impact)) := by
  have hframed : ((captures.filter fun buff => buff.length ≠ 0).flatMap fun buff =>
      toBytes 2 buff.length ++ buff) = records.flatMap CapturedRecord.framed := by
    rw [hcaptures,List.flatMap_map]
    rfl
  let head : List UInt8 := [0x02] ++ toBytes 2 pktCount.toNat
  have hall : datagram pktCount (records ++ ownRecords sample impact) =
      head ++ records.flatMap CapturedRecord.framed ++ imuFrame sample ++
        ((impact.map gpsRecord).toList.flatMap CapturedRecord.framed) := by
    rw [datagram,List.flatMap_append,ownRecords,List.flatMap_cons,imuFrame_eq]
    simp only [head,List.append_assoc]
  rw [hall] at hsize ⊢
  have himu : (head ++ records.flatMap CapturedRecord.framed ++ imuFrame sample).length ≤
      recDtaSz := by
    rw [List.length_append] at hsize
    omega
  have hrecords : (head ++ records.flatMap CapturedRecord.framed).length ≤ recDtaSz := by
    rw [List.length_append] at himu
    omega
  have hstart : (⟨List.replicate recDtaSz 0,0⟩ : RecordData) = .written [] := rfl
  have hmode : (RecordData.written []).write [0x02] = some (.written [0x02]) :=
    write_written (by decide)
  have hcount : (RecordData.written [0x02]).write (toBytes 2 pktCount.toNat) =
      some (.written head) := write_written (by simp [recDtaSz])
  have hcapture := @capture_written head captures
  rw [hframed] at hcapture
  rw [captureRound]
  simp only
  rw [hstart,hmode]
  simp only [Option.bind_eq_bind,Option.bind_some]
  rw [hcount]
  simp only [Option.bind_some]
  rw [hcapture hrecords]
  simp only [Option.bind_some]
  rw [write_written himu]
  simp only [Option.bind_some]
  cases impact with
  | none =>
    simp only [Option.map_none,Option.toList_none,List.flatMap_nil,List.append_nil]
    exact sendData_written _
  | some impact =>
    simp only [Option.map_some,Option.toList_some,List.flatMap_cons,List.flatMap_nil,
      List.append_nil] at hsize ⊢
    rw [← gpsFrame_eq] at hsize ⊢
    rw [write_written hsize]
    simp only [Option.bind_some]
    exact sendData_written _

end Building

section Records

theorem header_length (record : CapturedRecord) : record.header.length = 9 := image_length _

theorem entries_length (chunks : List CANRecorderData) :
    (chunks.flatMap fun chunk => [chunk.start,chunk.len]).length = chunks.length * 2 := by
  induction chunks with
  | nil => rfl
  | cons chunk chunks ih =>
    rw [List.flatMap_cons,List.length_append,ih,List.length_cons]
    simp only [List.length_cons,List.length_nil]
    omega

theorem framed_length (record : CapturedRecord) :
    record.framed.length = record.body.length + 2 := by
  rw [CapturedRecord.framed,List.length_append,toBytes_length,Nat.add_comm]

/-- The slices of the data that belong to chunks of the given lengths. -/
def slices : List Nat → List UInt8 → List (List UInt8)
  | [], _ => []
  | len :: lens, data => data.take len :: slices lens (data.drop len)

/-- The entry of a record. -/
def entryOf {Time : Type} (now : Time) (record : CapturedRecord) : Entry Time where
  addr := addressOf record.addr.toNat
  chunks := record.chunks.map CANRecorderData.pair
  datas := (slices (record.chunks.map fun chunk => chunk.len.toNat) record.data).map
    fun part => [hChunk part]
  dt := now

end Records

section Parsing

variable {Time : Type}

/-- A round of the first loop on the record behind `front`. -/
theorem splitRecords_round {front back : List UInt8} {record : CapturedRecord} (fuel : Nat)
    (hbody : record.body.length < 65536) :
    splitRecords (front ++ record.framed ++ back) (fuel + 1) front.length =
      if back = [] then .ok [record.body]
      else do
        let datas ← splitRecords (front ++ record.framed ++ back) fuel
          (front ++ record.framed).length
        return record.body :: datas := by
  have hfits : Fits [(2,record.body.length)] := by
    intro field hmem
    rw [List.mem_singleton.mp hmem]
    exact hbody
  have hsize : unpack [2] (toBytes 2 record.body.length) = some [record.body.length] := by
    have hunpack := unpack_image hfits
    rwa [image_cons,image_nil,List.append_nil] at hunpack
  have hfirst : slice (front ++ record.framed ++ back) front.length (front.length + 2) =
      toBytes 2 record.body.length := by
    rw [CapturedRecord.framed,← List.append_assoc,List.append_assoc]
    exact slice_middle _ _ _ rfl (by rw [toBytes_length])
  have hrecord : slice (front ++ record.framed ++ back) (front.length + 2)
      (front.length + record.body.length + 2) = record.body := by
    rw [CapturedRecord.framed,← List.append_assoc]
    apply slice_middle
    · rw [List.length_append,toBytes_length]
    · rw [List.length_append,toBytes_length]
      omega
  have hdec : front.length + (record.body.length + 2) = (front ++ record.framed).length := by
    rw [List.length_append,framed_length]
  rw [splitRecords,hfirst,hsize]
  simp only
  rw [hrecord,hdec]
  by_cases hback : back = []
  · rw [if_pos hback,hback,List.append_nil,if_pos le_rfl]
  · have hmore : ¬(front ++ record.framed).length ≥ (front ++ record.framed ++ back).length := by
      have hpos := List.length_pos_iff.mpr hback
      have hlen : (front ++ record.framed ++ back).length =
          (front ++ record.framed).length + back.length := List.length_append
      omega
    rw [if_neg hback,if_neg hmore]

/-- The first loop, started behind `front`, finds the bodies. -/
theorem splitRecords_framed {front : List UInt8} {record : CapturedRecord}
    {later : List CapturedRecord} {fuel : Nat} (hfuel : later.length < fuel)
    (hbody : ∀ r ∈ record :: later, r.body.length < 65536) :
    splitRecords (front ++ (record :: later).flatMap CapturedRecord.framed) fuel front.length =
      .ok ((record :: later).map CapturedRecord.body) := by
  induction later generalizing front record fuel with
  | nil =>
    obtain ⟨fuel,rfl⟩ : ∃ k, fuel = k + 1 := Nat.exists_eq_succ_of_ne_zero (Nat.ne_zero_of_lt hfuel)
    rw [List.flatMap_cons,← List.append_assoc,
      splitRecords_round fuel (hbody record List.mem_cons_self),List.flatMap_nil,if_pos rfl]
    rfl
  | cons next later ih =>
    obtain ⟨fuel,rfl⟩ : ∃ k, fuel = k + 1 := Nat.exists_eq_succ_of_ne_zero (Nat.ne_zero_of_lt hfuel)
    have hmore : (next :: later).flatMap CapturedRecord.framed ≠ [] := by
      intro hempty
      have hlen := congrArg List.length hempty
      rw [List.flatMap_cons,List.length_append,framed_length,List.length_nil] at hlen
      omega
    rw [List.flatMap_cons,← List.append_assoc,
      splitRecords_round fuel (hbody record List.mem_cons_self),if_neg hmore,
      ih (Nat.lt_of_succ_lt_succ hfuel) fun r hr => hbody r (List.mem_cons_of_mem _ hr)]
    rfl

/-- Data of the length of the chunks is dealt out in whole slices. -/
theorem dealt_slices {chunks : List (Nat × Nat)} {data : List UInt8}
    (hpos : ∀ chunk ∈ chunks, 1 ≤ chunk.2) (hdata : data.length = (chunks.map Prod.snd).sum) :
    dealt chunks data = (slices (chunks.map Prod.snd) data).map fun part => [hChunk part] := by
  induction chunks generalizing data with
  | nil => rfl
  | cons chunk rest ih =>
    have hlen : 1 ≤ chunk.2 := hpos chunk List.mem_cons_self
    rw [List.map_cons,List.sum_cons] at hdata
    have hsome : data ≠ [] := by
      intro hnone
      rw [hnone,List.length_nil] at hdata
      omega
    rw [dealt,if_neg hsome,List.map_cons,slices,List.map_cons,
      ih (fun other hmem => hpos other (List.mem_cons_of_mem _ hmem))
        (by rw [List.length_drop]; omega)]

theorem unpackChunk_body (record : CapturedRecord) {i : Nat} (hi : i < record.chunks.length) :
    unpackChunk record.body i = .ok (record.chunks[i].pair) := by
  let front : List UInt8 :=
    record.header ++ (record.chunks.take i).flatMap fun chunk => [chunk.start,chunk.len]
  let back : List UInt8 :=
    ((record.chunks.drop (i + 1)).flatMap fun chunk => [chunk.start,chunk.len]) ++ record.data
  have hchunks : record.chunks =
      record.chunks.take i ++ record.chunks[i] :: record.chunks.drop (i + 1) := by
    rw [List.getElem_cons_drop,List.take_append_drop]
  have hbody : record.body =
      front ++ [record.chunks[i].start,record.chunks[i].len] ++ back := by
    rw [CapturedRecord.body,CapturedRecord.entries]
    conv_lhs => rw [hchunks]
    rw [List.flatMap_append,List.flatMap_cons]
    simp only [front,back,List.append_assoc]
  have hfront : 9 + i * 2 = front.length := by
    rw [List.length_append,header_length,entries_length,List.length_take,
      Nat.min_eq_left (Nat.le_of_lt hi)]
  have hslice : slice record.body (9 + i * 2) (9 + i * 2 + 2) =
      image [(1,record.chunks[i].start.toNat),(1,record.chunks[i].len.toNat)] := by
    rw [hbody]
    have himage : image [(1,record.chunks[i].start.toNat),(1,record.chunks[i].len.toNat)] =
        [record.chunks[i].start,record.chunks[i].len] := by
      simp [image,toBytes]
    rw [himage]
    exact slice_middle _ _ _ hfront (by rw [hfront]; rfl)
  have hfits : Fits [(1,record.chunks[i].start.toNat),(1,record.chunks[i].len.toNat)] := by
    intro field hmem
    simp only [List.mem_cons,List.not_mem_nil,or_false] at hmem
    rcases hmem with rfl | rfl
    · exact UInt8.toNat_lt _
    · exact UInt8.toNat_lt _
  rw [unpackChunk,hslice]
  have hunpack := unpack_image hfits
  simp only [List.map_cons,List.map_nil] at hunpack
  rw [hunpack]
  rfl

theorem unpack_header (record : CapturedRecord) :
    unpack [4,2,2,1] (slice record.body 0 9) =
      some [record.addr.toNat,record.dt.toNat,record.n.toNat,record.chunks.length] := by
  have hslice : slice record.body 0 9 = record.header := by
    rw [CapturedRecord.body,List.append_assoc]
    exact slice_front _ _ (header_length record).symm
  have hfits : Fits [(4,record.addr.toNat),(2,record.dt.toNat),(2,record.n.toNat),
      (1,record.chunks.length)] := by
    intro field hmem
    simp only [List.mem_cons,List.not_mem_nil,or_false] at hmem
    rcases hmem with rfl | rfl | rfl | rfl
    · exact UInt32.toNat_lt _
    · exact UInt16.toNat_lt _
    · exact UInt16.toNat_lt _
    · exact Nat.lt_succ_of_le record.chunks_le
  rw [hslice]
  exact unpack_image hfits

/-- The second loop turns the body of a record into its entry. -/
theorem parseRecord_body (record : CapturedRecord) {fuel : Nat} (hfuel : 255 < fuel)
    (now : Time) : parseRecord fuel now record.body = .ok (some (entryOf now record)) := by
  have hchunks : (List.range record.chunks.length).mapM (unpackChunk record.body) =
      .ok (record.chunks.map CANRecorderData.pair) := by
    have hall : (List.range record.chunks.length).mapM (unpackChunk record.body) =
        .ok ((List.range record.chunks.length).map fun i =>
          (record.chunks.getD i ⟨0,0⟩).pair) := by
      apply mapM_ok_of_forall
      intro i hmem
      have hi : i < record.chunks.length := List.mem_range.mp hmem
      rw [unpackChunk_body record hi,List.getD_eq_getElem _ _ hi]
    rw [hall]
    congr 1
    apply List.ext_getElem
    · rw [List.length_map,List.length_map,List.length_range]
    · intro i hi _
      have hlt : i < record.chunks.length := by
        rwa [List.length_map,List.length_range] at hi
      rw [List.getElem_map,List.getElem_map,List.getElem_range,List.getD_eq_getElem _ _ hlt]
  have hraw : record.body.drop (9 + record.chunks.length * 2) = record.data := by
    rw [CapturedRecord.body]
    apply List.drop_left'
    rw [List.length_append,header_length,CapturedRecord.entries,entries_length]
  have hlens : (record.chunks.map CANRecorderData.pair).map Prod.snd =
      record.chunks.map fun chunk => chunk.len.toNat := by
    rw [List.map_map]
    rfl
  have hdeal : dealData (record.chunks.map CANRecorderData.pair) record.data fuel 0 0
      ((record.chunks.map CANRecorderData.pair).map fun _ => []) =
      .ok ((slices (record.chunks.map fun chunk => chunk.len.toNat) record.data).map
        fun part => [hChunk part]) := by
    have hcount : (record.chunks.map CANRecorderData.pair).length < fuel := by
      rw [List.length_map]
      exact Nat.lt_of_le_of_lt record.chunks_le hfuel
    have hpos : ∀ chunk ∈ record.chunks.map CANRecorderData.pair, 1 ≤ chunk.2 := by
      intro chunk hmem
      obtain ⟨original,horiginal,rfl⟩ := List.mem_map.mp hmem
      exact record.len_pos original horiginal
    have hdata : record.data.length =
        ((record.chunks.map CANRecorderData.pair).map Prod.snd).sum := by
      rw [hlens]
      exact record.data_length
    rw [← hlens,← dealt_slices hpos hdata]
    exact dealData_eq hpos (le_of_eq hdata) hcount
  have hsome : (record.chunks.map CANRecorderData.pair).length ≠ 0 := by
    rw [List.length_map]
    exact Nat.ne_zero_of_lt record.chunks_pos
  rw [parseRecord,unpack_header]
  simp only
  rw [hchunks,hraw,bind_ok]
  rw [if_pos hsome,hdeal]
  rfl

/-- The second loop turns the bodies of records into their entries. -/
theorem parseRecords_bodies (clock : Nat → Time) {fuel : Nat} (hfuel : 255 < fuel) (first : Nat)
    (records : List CapturedRecord) :
    parseRecords fuel clock first (records.map CapturedRecord.body) =
      .ok ((records.zipIdx first).map fun turn => entryOf (clock turn.2) turn.1) := by
  induction records generalizing first with
  | nil => rfl
  | cons record records ih =>
    rw [List.map_cons,parseRecords,parseRecord_body record hfuel,bind_ok,ih (first + 1),bind_ok]
    rfl

end Parsing

/-- For every list of captured records whose datagram fits `recordData`, `parseFrame` ends
without an error and gives one entry for each record, in order. -/
theorem captureDatagram_roundTrip {Time : Type} (clock : Nat → Time) (pktCount : UInt16)
    (captures : List (List UInt8)) (records : List CapturedRecord) (sample : ImuSample)
    (impact : Option GpsImpact)
    (hcaptures : (captures.filter fun buff => buff.length ≠ 0) = records.map CapturedRecord.body)
    (hsize : (datagram pktCount (records ++ ownRecords sample impact)).length ≤ recDtaSz) :
    captureRound pktCount captures sample impact =
      some (datagram pktCount (records ++ ownRecords sample impact)) ∧
    ∀ fuel > recDtaSz,
      parseFrame fuel clock (datagram pktCount (records ++ ownRecords sample impact)) =
        .ok ((records ++ ownRecords sample impact).zipIdx.map fun turn =>
          entryOf (clock turn.2) turn.1) := by
  refine ⟨captureRound_eq hcaptures hsize,?_⟩
  intro fuel hfuel
  have hbodies (all : List CapturedRecord) : all.length ≤ (datagram pktCount all).length ∧
      ∀ record ∈ all, record.body.length ≤ (datagram pktCount all).length := by
    induction all with
    | nil => exact ⟨Nat.zero_le _,fun record hmem => absurd hmem List.not_mem_nil⟩
    | cons next later ih =>
      have hlen : (datagram pktCount (next :: later)).length =
          (datagram pktCount later).length + (next.body.length + 2) := by
        simp only [datagram,List.flatMap_cons,List.length_append,framed_length]
        omega
      refine ⟨by rw [List.length_cons,hlen]; omega,?_⟩
      intro record hmem
      rcases List.mem_cons.mp hmem with rfl | hlater
      · omega
      · have hrecord := ih.2 record hlater
        omega
  obtain ⟨record,later,hall⟩ : ∃ record later,
      records ++ ownRecords sample impact = record :: later :=
    List.exists_cons_of_ne_nil (List.append_ne_nil_of_right_ne_nil _ (List.cons_ne_nil _ _))
  rw [hall] at hsize ⊢
  obtain ⟨hmany,hbody⟩ := hbodies (record :: later)
  have hsplit : splitRecords (datagram pktCount (record :: later)) fuel 3 =
      .ok ((record :: later).map CapturedRecord.body) := by
    have hfront : 3 = ([0x02] ++ toBytes 2 pktCount.toNat : List UInt8).length := rfl
    rw [hfront]
    apply splitRecords_framed
    · rw [List.length_cons] at hmany
      omega
    · intro r hmem
      have hlen := hbody r hmem
      rw [recDtaSz] at hsize
      omega
  rw [parseFrame,hsplit,bind_ok]
  apply parseRecords_bodies
  rw [recDtaSz] at hfuel
  omega

/-- Two chunks of one CAN frame. -/
def twoChunks : CapturedRecord where
  addr := 0x7E8
  dt := 10
  n := 16
  chunks := [⟨0,2⟩,⟨3,1⟩]
  data := [0xAB,0x0C,0x05]
  chunks_pos := by decide
  chunks_le := by decide
  len_pos := by decide
  data_length := rfl

theorem captureDatagram_roundTrip_twoChunks :
    captureRound 1 [[],twoChunks.body] ⟨1,2,3,4,5,6⟩ none =
      some (datagram 1 [twoChunks,imuRecord ⟨1,2,3,4,5,6⟩]) ∧
    parseFrame 1000 (fun turn => turn) (datagram 1 [twoChunks,imuRecord ⟨1,2,3,4,5,6⟩]) =
      .ok [entryOf 0 twoChunks,entryOf 1 (imuRecord ⟨1,2,3,4,5,6⟩)] := by
  have hround := captureDatagram_roundTrip (fun turn => turn) 1 [[],twoChunks.body] [twoChunks]
    ⟨1,2,3,4,5,6⟩ none rfl (by decide)
  exact ⟨hround.1,hround.2 1000 (by decide)⟩

end Pyrn.Canonair
