import Pyrn.Device.NewDynSensorsExact
import Mathlib.Data.List.Forall2

/-!
# Well-formed records become sensors

A record that the server may send is built with its validity. From data that is a concatenation
of such records `NewDynSensors` makes one sensor for each of them and reads all of the data.
-/

namespace Pyrn.Device

open Pyrn.Can LittleEndian

/-- A command that is not the end of the list. -/
structure Command where
  type : UInt16
  idCmd : UInt32
  cmd : List UInt8
  type_ne : type ≠ 0
  size_le : cmd.length ≤ 8
  deriving DecidableEq, Repr

def Command.image (command : Command) : List UInt8 :=
  toBytes 2 command.type.toNat ++ toBytes 4 command.idCmd.toNat ++
    UInt8.ofNat command.cmd.length :: command.cmd

/-- A diagnosis record for one of the two buses. Its commands end with a marker; whatever is
left of the list behind the type of the marker is `tail`. -/
structure DiagRecord (pins : BusPins) where
  idCalc : UInt32
  diagCode : UInt8
  speed : UInt16
  addrDst : UInt32
  addrSrc : UInt32
  pinh : UInt8
  pinl : UInt8
  commands : List Command
  tail : List UInt8
  known : diagCode = 0x6A ∨ diagCode = 0x68
  bus : pins.busFromPins pinh pinl ≠ 0
  cmdLen_le : (commands.flatMap Command.image ++ 0 :: 0 :: tail).length ≤ 255

/-- A recorder record whose chunks lie in the eight bytes of a frame. -/
structure RecorderRecord where
  idCalc : UInt32
  speed : UInt16
  rxAddr : UInt32
  pinh : UInt8
  pinl : UInt8
  chunks : List CANRecorderData
  chunks_pos : 1 ≤ chunks.length
  chunks_le : chunks.length ≤ 7
  inFrame : ∀ chunk ∈ chunks, chunk.InFrame

inductive SensorRecord (pins : BusPins)
  | diag (record : DiagRecord pins)
  | recorder (record : RecorderRecord)

namespace DiagRecord

variable {pins : BusPins}

def cmdBytes (record : DiagRecord pins) : List UInt8 :=
  record.commands.flatMap Command.image ++ 0 :: 0 :: record.tail

def header (record : DiagRecord pins) : CANDiagCalculatorHeader where
  hdrType := canDiagHdrType
  idCalc := record.idCalc
  diagCode := record.diagCode
  speed := record.speed
  addrDst := record.addrDst
  addrSrc := record.addrSrc
  pinh := record.pinh
  pinl := record.pinl
  cmdLen := UInt16.ofNat record.cmdBytes.length

def image (record : DiagRecord pins) : List UInt8 :=
  [canDiagHdrType] ++ (toBytes 4 record.idCalc.toNat ++ ([record.diagCode] ++
    (toBytes 2 record.speed.toNat ++ (toBytes 4 record.addrDst.toNat ++
      (toBytes 4 record.addrSrc.toNat ++ ([record.pinh] ++ ([record.pinl] ++
        (toBytes 2 record.cmdBytes.length ++ record.cmdBytes))))))))

end DiagRecord

namespace RecorderRecord

def header (record : RecorderRecord) : CANRecorderCalculatorHeader where
  hdrType := canRecorderHdrType
  idCalc := record.idCalc
  speed := record.speed
  rxAddr := record.rxAddr
  pinh := record.pinh
  pinl := record.pinl
  nChunks := UInt8.ofNat record.chunks.length

def image (record : RecorderRecord) : List UInt8 :=
  [canRecorderHdrType] ++ (toBytes 4 record.idCalc.toNat ++ (toBytes 2 record.speed.toNat ++
    (toBytes 4 record.rxAddr.toNat ++ ([record.pinh] ++ ([record.pinl] ++
      ([UInt8.ofNat record.chunks.length] ++
        record.chunks.flatMap fun chunk => [chunk.start,chunk.len]))))))

end RecorderRecord

def SensorRecord.image {pins : BusPins} : SensorRecord pins → List UInt8
  | .diag record => record.image
  | .recorder record => record.image

/-- A sensor of the kind of a record that holds a ready calculator with its header and its
entries. -/
def SensorRecord.Holds {pins : BusPins} : SensorRecord pins → Sensor → Prop
  | .diag record, sensor => ∃ calculator,sensor = .diag [calculator] ∧
      calculator.ready = true ∧ calculator.calcHeader = record.header ∧
        calculator.memory.take record.cmdBytes.length = record.cmdBytes
  | .recorder record, sensor => ∃ calculator,sensor = .recorder calculator ∧
      calculator.ready = true ∧ calculator.calcHeader = record.header ∧
        calculator.recordEntries = record.chunks

/-- The allocator has memory for every object, and there is memory behind the command storage
for what the walk over the commands reads of a marker at the end of the storage. -/
structure Env.Allocates (env : Env) : Prop where
  newDiag : ∀ round,∃ fresh,env.newDiag round = some fresh ∧
    canDiagCmdStorage + 4 ≤ fresh.memory.length
  newRecorder : ∀ round,∃ fresh,env.newRecorder round = some fresh
  newSensor : ∀ round,env.newSensor round = true

/-- The rounds read from one offset to another, each from where the one before has ended. -/
def Consumes : List Round → Int → Int → Prop
  | [], first, last => first = last
  | this :: later, first, last => this.offset = first ∧ Consumes later (first + this.read) last

section Fields

variable {buff : Memory} {offset : Nat}

theorem read_byte {x : UInt8} (h : buff.bytes offset [x].length = [x]) : buff offset = x :=
  (List.cons.inj h).1

theorem read_uint16 {x : UInt16} (h : buff.bytes offset (toBytes 2 x.toNat).length =
    toBytes 2 x.toNat) : UInt16.ofNat (buff.field offset 2) = x := by
  rw [toBytes_length] at h
  rw [Memory.field,h,ofBytes_toBytes_of_lt x.toNat_lt,UInt16.ofNat_toNat]

theorem read_uint32 {x : UInt32} (h : buff.bytes offset (toBytes 4 x.toNat).length =
    toBytes 4 x.toNat) : UInt32.ofNat (buff.field offset 4) = x := by
  rw [toBytes_length] at h
  rw [Memory.field,h,ofBytes_toBytes_of_lt x.toNat_lt,UInt32.ofNat_toNat]

end Fields

section Commands

theorem commandAt_image (command : Command) (more : List UInt8) :
    CANDiagCalculator.commandAt (command.image ++ more) =
      some ⟨command.type.toNat,command.idCmd.toNat,command.cmd.length,command.cmd ++ more⟩ := by
  have hsize := command.size_le
  have htype : ofBytes (toBytes 2 command.type.toNat) = command.type.toNat :=
    ofBytes_toBytes_of_lt command.type.toNat_lt
  have hid : ofBytes (toBytes 4 command.idCmd.toNat) = command.idCmd.toNat :=
    ofBytes_toBytes_of_lt command.idCmd.toNat_lt
  have hlength : (UInt8.ofNat command.cmd.length).toNat = command.cmd.length := by
    rw [UInt8.toNat_ofNat']
    omega
  have hlist : CANDiagCalculator.commandAt (command.image ++ more) =
      some ⟨ofBytes (toBytes 2 command.type.toNat),ofBytes (toBytes 4 command.idCmd.toNat),
        (UInt8.ofNat command.cmd.length).toNat,command.cmd ++ more⟩ := rfl
  rw [hlist,htype,hid,hlength]

/-- The walk over the commands of a record ends at its marker. -/
theorem validateFrom_commands (commands : List Command) {more : List UInt8}
    (hmore : 5 ≤ more.length) {rounds : Nat} (hrounds : commands.length < rounds) :
    CANDiagCalculator.validateFrom rounds
      (commands.flatMap Command.image ++ 0 :: 0 :: more) = some true := by
  induction commands generalizing rounds with
  | nil =>
      obtain ⟨rounds,rfl⟩ : ∃ n,rounds = n + 1 := ⟨rounds - 1,by omega⟩
      match more, hmore with
      | a :: b :: c :: d :: e :: rest, _ => rfl
  | cons command commands ih =>
      obtain ⟨rounds,rfl⟩ : ∃ n,rounds = n + 1 := ⟨rounds - 1,by omega⟩
      have htype : ¬command.type.toNat = CommandType.cmdEnd.code := by
        intro hend
        exact command.type_ne (UInt16.toNat_inj.mp hend)
      rw [List.flatMap_cons,List.append_assoc,CANDiagCalculator.validateFrom,commandAt_image]
      simp only [Option.bind_eq_bind,Option.bind_some]
      rw [if_neg htype,if_neg (by have hsize := command.size_le; omega),List.drop_left]
      exact ih (by rw [List.length_cons] at hrounds; omega)

theorem length_le_flatMap_image (commands : List Command) :
    commands.length ≤ (commands.flatMap Command.image).length := by
  induction commands with
  | nil => exact le_refl _
  | cons command commands ih =>
      rw [List.flatMap_cons,List.length_append,List.length_cons,Command.image,List.length_append,
        List.length_cons]
      omega

end Commands

section Diag

variable {pins : BusPins} {record : DiagRecord pins} {buff : Memory}

theorem cmdBytes_le (record : DiagRecord pins) : record.cmdBytes.length ≤ 255 :=
  record.cmdLen_le

theorem cmdBytes_pos (record : DiagRecord pins) : 0 < record.cmdBytes.length := by
  rw [DiagRecord.cmdBytes,List.length_append,List.length_cons]
  omega

/-- The header and the commands found where a diagnosis record lies. -/
theorem diagRecord_read (h : buff.bytes 0 record.image.length = record.image) :
    CANDiagCalculatorHeader.read buff = record.header ∧
      buff.bytes sizeofCANDiagCalculatorHeader record.cmdBytes.length = record.cmdBytes := by
  obtain ⟨htype,h⟩ := bytes_append h
  obtain ⟨hidCalc,h⟩ := bytes_append h
  obtain ⟨hdiagCode,h⟩ := bytes_append h
  obtain ⟨hspeed,h⟩ := bytes_append h
  obtain ⟨haddrDst,h⟩ := bytes_append h
  obtain ⟨haddrSrc,h⟩ := bytes_append h
  obtain ⟨hpinh,h⟩ := bytes_append h
  obtain ⟨hpinl,h⟩ := bytes_append h
  obtain ⟨hcmdLen,hcmd⟩ := bytes_append h
  simp only [toBytes_length,List.length_singleton,Nat.zero_add,Nat.reduceAdd] at *
  have hlen : buff.field 18 2 = record.cmdBytes.length := by
    have hle := cmdBytes_le record
    rw [Memory.field,hcmdLen,ofBytes_toBytes_of_lt (by omega)]
  refine ⟨?_,hcmd⟩
  rw [CANDiagCalculatorHeader.read,DiagRecord.header,read_byte htype,hlen,
    read_uint32 (by simpa using hidCalc),read_byte hdiagCode,
    read_uint16 (by simpa using hspeed),read_uint32 (by simpa using haddrDst),
    read_uint32 (by simpa using haddrSrc),read_byte hpinh,read_byte hpinl]

theorem cmdLenOf_record (h : buff.bytes 0 record.image.length = record.image) :
    cmdLenOf buff = record.cmdBytes.length := by
  have hle := cmdBytes_le record
  rw [cmdLenOf,(diagRecord_read h).1,DiagRecord.header,UInt16.toNat_ofNat']
  omega

theorem cmdLenOk_of_record (h : buff.bytes 0 record.image.length = record.image) :
    CmdLenOk buff ∧ diagSize buff = record.image.length := by
  have hle := cmdBytes_le record
  have hpos := cmdBytes_pos record
  have hlength : record.image.length = record.cmdBytes.length + 20 := by
    rw [DiagRecord.image]
    simp only [List.length_append,List.length_singleton,toBytes_length]
    omega
  rw [CmdLenOk,diagSize,cmdLenOf_record h,hlength]
  exact ⟨⟨hpos,Nat.lt_succ_of_le hle⟩,rfl⟩

/-- The commands of the record lie in front of what the storage held before. -/
theorem storedCommands_record (fresh : CANDiagCalculator)
    (h : buff.bytes 0 record.image.length = record.image) :
    storedCommands fresh buff =
      record.cmdBytes ++ fresh.memory.drop record.cmdBytes.length := by
  rw [storedCommands,cmdLenOf_record h,(diagRecord_read h).2,Buffer.splice,List.take_zero,
    List.nil_append,Nat.zero_add]

theorem commandsValid_record {fresh : CANDiagCalculator}
    (hroom : canDiagCmdStorage + 4 ≤ fresh.memory.length)
    (h : buff.bytes 0 record.image.length = record.image) :
    commandsValid fresh buff = some true := by
  have hle := cmdBytes_le record
  have hlength : (storedCommands fresh buff).length = fresh.memory.length := by
    rw [storedCommands_record fresh h,List.length_append,List.length_drop]
    simp only [canDiagCmdStorage] at hroom
    omega
  have hcommands := length_le_flatMap_image record.commands
  have hparts : record.cmdBytes.length =
      (record.commands.flatMap Command.image).length + (record.tail.length + 2) := by
    rw [DiagRecord.cmdBytes,List.length_append,List.length_cons,List.length_cons]
  rw [commandsValid,hlength,storedCommands_record fresh h,DiagRecord.cmdBytes,List.append_assoc,
    List.cons_append,List.cons_append]
  simp only [canDiagCmdStorage] at hroom
  apply validateFrom_commands
  · rw [List.length_append,List.length_drop,← DiagRecord.cmdBytes]
    omega
  · omega

end Diag

section Recorder

variable {record : RecorderRecord} {buff : Memory}

theorem length_flatMap_chunks (chunks : List CANRecorderData) :
    (chunks.flatMap fun chunk => [chunk.start,chunk.len]).length = 2 * chunks.length := by
  induction chunks with
  | nil => rfl
  | cons chunk chunks ih =>
      rw [List.flatMap_cons,List.length_append,ih]
      simp only [List.length_cons,List.length_nil]
      omega

theorem recorderRecord_read (h : buff.bytes 0 record.image.length = record.image) :
    CANRecorderCalculatorHeader.read buff = record.header ∧
      CANRecorderCalculator.entriesOf buff (buff 13) = record.chunks := by
  have hmany := record.chunks_le
  obtain ⟨htype,h⟩ := bytes_append h
  obtain ⟨hidCalc,h⟩ := bytes_append h
  obtain ⟨hspeed,h⟩ := bytes_append h
  obtain ⟨hrxAddr,h⟩ := bytes_append h
  obtain ⟨hpinh,h⟩ := bytes_append h
  obtain ⟨hpinl,h⟩ := bytes_append h
  obtain ⟨hcount,hchunks⟩ := bytes_append h
  rw [length_flatMap_chunks] at hchunks
  simp only [toBytes_length,List.length_singleton,Nat.zero_add,Nat.reduceAdd] at *
  have hn : buff 13 = UInt8.ofNat record.chunks.length := read_byte hcount
  constructor
  · rw [CANRecorderCalculatorHeader.read,RecorderRecord.header,read_byte htype,hn,
      read_uint32 (by simpa using hidCalc),read_uint16 (by simpa using hspeed),
      read_uint32 (by simpa using hrxAddr),read_byte hpinh,read_byte hpinl]
  · rw [hn]
    apply entriesOf_eq _ hchunks
    rw [UInt8.toNat_ofNat']
    omega

theorem parsable_of_record (h : buff.bytes 0 record.image.length = record.image) :
    Parsable buff ∧ recorderSize buff = record.image.length := by
  have hpos := record.chunks_pos
  have hle := record.chunks_le
  have hcount : (buff 13).toNat = record.chunks.length := by
    have hheader := congrArg CANRecorderCalculatorHeader.nChunks (recorderRecord_read h).1
    have hn : buff 13 = UInt8.ofNat record.chunks.length := hheader
    rw [hn,UInt8.toNat_ofNat']
    omega
  have hlength : record.image.length = 14 + 2 * record.chunks.length := by
    rw [RecorderRecord.image]
    simp only [List.length_append,List.length_singleton,toBytes_length,length_flatMap_chunks]
    omega
  rw [Parsable,recorderSize,hcount,hlength]
  exact ⟨⟨hpos,hle⟩,rfl⟩

end Recorder

section Rounds

variable {env : Env} {st : LoopState}

/-- What the round of a record does: it reads the record and adds its sensor. -/
def AddsSensor (env : Env) (st : LoopState) (record : SensorRecord env.pins) : Prop :=
  ∃ sensor,record.Holds sensor ∧ (round env st).offset = st.offset ∧
    (round env st).read = record.image.length ∧
    (round env st).next =
      endCheck env st (st.offset + record.image.length) (st.sensors ++ [sensor])

theorem addsSensor_diag (record : DiagRecord env.pins) (halloc : env.Allocates)
    (hroom : st.sensors.length < env.maxSensors)
    (h : (env.at st.offset).bytes 0 record.image.length = record.image) :
    AddsSensor env st (.diag record) := by
  obtain ⟨fresh,hnew,hstorage⟩ := halloc.newDiag st.round
  obtain ⟨hheader,-⟩ := diagRecord_read h
  obtain ⟨hlen,hsize⟩ := cmdLenOk_of_record h
  have htype : env.at st.offset 0 = canDiagHdrType :=
    congrArg CANDiagCalculatorHeader.hdrType hheader
  have hround := round_diag htype hnew hlen
  rw [diagNext,commandsValid_record hstorage h,hsize,hheader] at hround
  simp only [placeDiag_eq] at hround
  have hserved : ¬(KnownCode record.header ∧ env.busOf record.header = 0) :=
    fun hbusless => record.bus hbusless.2
  have hknown : KnownCode record.header := record.known
  rw [if_neg hserved,placement,if_pos hknown,if_pos hroom,if_pos (halloc.newSensor st.round)]
    at hround
  refine ⟨_,⟨⟨true,true,record.header,storedCommands fresh (env.at st.offset)⟩,rfl,rfl,rfl,?_⟩,
    congrArg Round.offset hround,congrArg Round.read hround,congrArg Round.next hround⟩
  rw [storedCommands_record fresh h,List.take_left]

theorem addsSensor_recorder (record : RecorderRecord) (halloc : env.Allocates)
    (hroom : st.sensors.length < env.maxSensors)
    (h : (env.at st.offset).bytes 0 record.image.length = record.image) :
    AddsSensor env st (.recorder record) := by
  obtain ⟨fresh,hnew⟩ := halloc.newRecorder st.round
  obtain ⟨hheader,hentries⟩ := recorderRecord_read h
  obtain ⟨hparse,hsize⟩ := parsable_of_record h
  have htype : env.at st.offset 0 = canRecorderHdrType :=
    congrArg CANRecorderCalculatorHeader.hdrType hheader
  have hvalid : CANRecorderCalculator.validEntries record.chunks = true :=
    (validEntries_iff _).mpr record.inFrame
  have hround := round_recorder htype hnew
  simp only at hround
  rw [setData_of_parsable fresh htype hparse,hentries,hvalid,hsize,hheader,
    if_pos (halloc.newSensor st.round)] at hround
  simp only [withRecorder] at hround
  have hplace : st.sensors.length + 1 ≤ env.maxSensors := hroom
  rw [if_pos hplace,if_pos hplace] at hround
  exact ⟨_,⟨⟨true,true,record.header,record.chunks⟩,rfl,rfl,rfl,rfl⟩,
    congrArg Round.offset hround,congrArg Round.read hround,congrArg Round.next hround⟩

theorem addsSensor (record : SensorRecord env.pins) (halloc : env.Allocates)
    (hroom : st.sensors.length < env.maxSensors)
    (h : (env.at st.offset).bytes 0 record.image.length = record.image) :
    AddsSensor env st record := by
  cases record with
  | diag record => exact addsSensor_diag record halloc hroom h
  | recorder record => exact addsSensor_recorder record halloc hroom h

/-- The part of a memory behind its first record. -/
theorem bytes_at_add (env : Env) (offset : Int) (n k : Nat) :
    (env.at offset).bytes n k = (env.at (offset + n)).bytes 0 k := by
  apply List.map_congr_left
  intro i _
  have hplace : offset + ((n + i : Nat) : Int) = offset + n + ((0 + i : Nat) : Int) := by omega
  rw [Env.at,Env.at,hplace]

theorem length_flatMap_image_pos {pins : BusPins} {records : List (SensorRecord pins)}
    (hpos : records ≠ []) : 0 < (records.flatMap SensorRecord.image).length := by
  cases records with
  | nil => exact absurd rfl hpos
  | cons record records =>
      have hfirst : record.image ≠ [] := by
        cases record with
        | diag record => exact List.cons_ne_nil _ _
        | recorder record => exact List.cons_ne_nil _ _
      have himage := List.length_pos_iff.mpr hfirst
      rw [List.flatMap_cons,List.length_append]
      omega

/-- From a record on, the rounds read the records that are left and add their sensors. The
induction goes over these records; the data ends with the last of them. -/
theorem rounds_records (halloc : env.Allocates) (records : List (SensorRecord env.pins))
    {fuel : Nat} (hfuel : records.length ≤ fuel) (hpos : records ≠ [])
    (hroom : st.sensors.length + records.length ≤ env.maxSensors)
    (hdata : (env.at st.offset).bytes 0 (records.flatMap SensorRecord.image).length =
      records.flatMap SensorRecord.image)
    (hend : st.offset + (records.flatMap SensorRecord.image).length = env.dataSz) :
    ∃ run added,rounds env fuel st = (run,.returned (st.sensors ++ added)) ∧
      List.Forall₂ SensorRecord.Holds records added ∧ Consumes run st.offset env.dataSz := by
  induction records generalizing st fuel with
  | nil => exact absurd rfl hpos
  | cons record records ih =>
      rw [List.flatMap_cons] at hdata hend
      rw [List.length_cons] at hfuel hroom
      obtain ⟨fuel,rfl⟩ : ∃ n,fuel = n + 1 := ⟨fuel - 1,by omega⟩
      obtain ⟨hfirst,hlater⟩ := bytes_append hdata
      rw [Nat.zero_add,bytes_at_add] at hlater
      rw [List.length_append,Nat.cast_add] at hend
      obtain ⟨sensor,hsensor,hoffset,hread,hnext⟩ := addsSensor record halloc (by omega) hfirst
      by_cases hlast : records = []
      · subst hlast
        rw [List.flatMap_nil,List.length_nil] at hend
        rw [endCheck,if_pos (by omega)] at hnext
        refine ⟨[round env st],[sensor],?_,.cons hsensor .nil,hoffset,?_⟩
        · rw [rounds]
          simp only
          rw [hnext]
        · rw [Consumes,hread]
          omega
      · -- the image of a record is not empty, so the next offset lies inside the data
        have hmore : ¬st.offset + record.image.length ≥ env.dataSz := by
          have hsome := length_flatMap_image_pos hlast
          omega
        rw [endCheck,if_neg hmore] at hnext
        obtain ⟨run,added,hrun,hholds,hconsumes⟩ :=
          @ih ⟨st.offset + record.image.length,st.round + 1,st.sensors ++ [sensor]⟩ fuel
            (by omega) hlast (by rw [List.length_append,List.length_singleton]; omega) hlater
            (by dsimp only; omega)
        refine ⟨round env st :: run,sensor :: added,?_,.cons hsensor hholds,hoffset,?_⟩
        · rw [rounds_again fuel hnext,hrun,List.append_assoc,List.singleton_append]
        · rw [hread]
          exact hconsumes

end Rounds

/-- From well-formed records that fill the data a call makes one sensor each, in their order,
behind the sensors that it finds, and its rounds read all of the data. -/
theorem newDynSensors_wellFormed (env : Env) (halloc : env.Allocates)
    (records : List (SensorRecord env.pins)) (sensors : List Sensor)
    (hpos : 1 ≤ records.length) (hroom : sensors.length + records.length ≤ env.maxSensors)
    (hdata : (env.at 0).bytes 0 (records.flatMap SensorRecord.image).length =
      records.flatMap SensorRecord.image)
    (hend : env.dataSz = (records.flatMap SensorRecord.image).length)
    (fuel : Nat) (hfuel : records.length ≤ fuel) :
    ∃ run added,newDynSensors env .osOK sensors fuel = (run,.returned (sensors ++ added)) ∧
      added.length = records.length ∧ List.Forall₂ SensorRecord.Holds records added ∧
        Consumes run 0 env.dataSz := by
  have hne : records ≠ [] := List.length_pos_iff.mp hpos
  obtain ⟨run,added,hrun,hholds,hconsumes⟩ :=
    @rounds_records env ⟨0,0,sensors⟩ halloc records fuel hfuel hne hroom hdata
      (by dsimp only; omega)
  exact ⟨run,added,hrun,hholds.length_eq.symm,hholds,hconsumes⟩

/-- A recorder and a diagnosis with one command, for the pins of the first bus. -/
def twoRecords : List (SensorRecord ⟨6,14,3,11⟩) :=
  [.recorder ⟨1,500,2024,6,14,[⟨0,8⟩],by decide,by decide,
      by simp only [CANRecorderData.InFrame]; decide⟩,
    .diag ⟨2,0x6A,500,0x7E8,0x7E0,6,14,[⟨3,7,[2,1,12],by decide,by decide⟩],[0,0,0,0,0],
      by decide,by decide,by decide⟩]

/-- The device that receives the two records, with memory for a diagnosis calculator. -/
def receivingTwoRecords : Env :=
  { receiving (twoRecords.flatMap SensorRecord.image) with
    newDiag := fun _ => some ⟨false,false,⟨0,0,0,0,0,0,0,0,0⟩,List.replicate 260 0⟩ }

theorem newDynSensors_wellFormed_twoRecords :
    ∃ run added,newDynSensors receivingTwoRecords .osOK [] 2 = (run,.returned added) ∧
      added.length = 2 ∧ List.Forall₂ SensorRecord.Holds twoRecords added ∧
        Consumes run 0 53 := by
  have halloc : receivingTwoRecords.Allocates := by
    refine ⟨fun _ => ⟨_,rfl,?_⟩,fun _ => ⟨_,rfl⟩,fun _ => rfl⟩
    rw [List.length_replicate]
    decide
  exact newDynSensors_wellFormed receivingTwoRecords halloc twoRecords [] (by decide) (by decide)
    (by decide) (by decide) 2 (by decide)

end Pyrn.Device
