import Pyrn.Device.NewDynSensors

/-!
# When creating the dynamic sensors ends in order

The loop over the records returns, stays inside the data and stops at the first bad record
exactly when the records are complete and accepted one after the other, up to the end of the
data or up to a diagnosis record that is complete and refused.
-/

namespace Pyrn.Device

open Pyrn.Can

/-- A complete diagnosis record that `SetData` accepts, with its calculator. -/
structure DiagAccepted (env : Env) (round : Nat) (offset : Int) (calculator : CANDiagCalculator) :
    Prop where
  type : env.at offset 0 = canDiagHdrType
  cmdLen : CmdLenOk (env.at offset)
  complete : offset + diagSize (env.at offset) ≤ env.dataSz
  valid : ∃ fresh, env.newDiag round = some fresh ∧
    commandsValid fresh (env.at offset) = some true ∧
    calculator = ⟨true,true,.read (env.at offset),storedCommands fresh (env.at offset)⟩

def recorderCalculator (buff : Memory) : CANRecorderCalculator :=
  ⟨true,true,.read buff,CANRecorderCalculator.entriesOf buff (buff 13)⟩

/-- A complete recorder record that `SetData` accepts. -/
structure RecorderAccepted (env : Env) (offset : Int) : Prop where
  type : env.at offset 0 = canRecorderHdrType
  parsable : Parsable (env.at offset)
  complete : offset + recorderSize (env.at offset) ≤ env.dataSz
  valid : ∀ entry ∈ CANRecorderCalculator.entriesOf (env.at offset) (env.at offset 13),
    entry.InFrame

/-- Neither truncated nor of an unknown type nor rejected by `SetData`. -/
def RecordAccepted (env : Env) (round : Nat) (offset : Int) : Prop :=
  (∃ calculator, DiagAccepted env round offset calculator) ∨ RecorderAccepted env offset

/-- Only accepted records are followed by another round. -/
def StopsAtFirstBad (env : Env) : Nat → List Round → Prop
  | _, [] => True
  | round, this :: later =>
      (later ≠ [] → RecordAccepted env round this.offset) ∧ StopsAtFirstBad env (round + 1) later

/-- The rounds of a call from a round on end in order. -/
structure InOrder (env : Env) (first : Nat) (run : List Round × Ending) : Prop where
  returned : ∃ sensors, run.2 = .returned sensors
  inside : ∀ round ∈ run.1, 0 ≤ round.offset ∧ round.offset + round.read ≤ env.dataSz
  ready : ∀ round ∈ run.1, ∀ calculator ∈ round.recorder, calculator.ready = true
  stops : StopsAtFirstBad env first run.1

def KnownCode (header : CANDiagCalculatorHeader) : Prop :=
  header.diagCode = 0x6A ∨ header.diagCode = 0x68

instance (header : CANDiagCalculatorHeader) : Decidable (KnownCode header) :=
  inferInstanceAs (Decidable (_ ∨ _))

def Env.busOf (env : Env) (header : CANDiagCalculatorHeader) : Nat :=
  env.pins.busFromPins header.pinh header.pinl

/-- The sensors with an accepted diagnosis calculator in its place: a new sensor while there is
room, then a place in an existing one. `none` when memory runs out or a recorder is in the way. -/
def placement (env : Env) (round : Nat) (sensors : List Sensor)
    (calculator : CANDiagCalculator) : Option (List Sensor) :=
  if KnownCode calculator.calcHeader then
    if sensors.length < env.maxSensors then
      if env.newSensor round = true then some (sensors ++ [.diag [calculator]]) else none
    else addToExisting calculator sensors
  else some sensors

/-- The sensors with a recorder, if there is room. -/
def withRecorder (env : Env) (sensors : List Sensor) (calculator : CANRecorderCalculator) :
    List Sensor :=
  if sensors.length + 1 ≤ env.maxSensors then sensors ++ [.recorder calculator] else sensors

/-- The records from an offset on are in order, given the round and the sensors there. -/
inductive Orderly (env : Env) : Int → Nat → List Sensor → Prop
  | finished {offset : Int} {round : Nat} {sensors : List Sensor} :
      env.dataSz ≤ offset → Orderly env offset round sensors
  | diag {offset : Int} {round : Nat} {sensors placed : List Sensor}
      {calculator : CANDiagCalculator} :
      DiagAccepted env round offset calculator →
      ¬(KnownCode calculator.calcHeader ∧ env.busOf calculator.calcHeader = 0) →
      placement env round sensors calculator = some placed →
      Orderly env (offset + diagSize (env.at offset)) (round + 1) placed →
      Orderly env offset round sensors
  | buslessDiag {offset : Int} {round : Nat} {sensors : List Sensor}
      {calculator : CANDiagCalculator} :
      DiagAccepted env round offset calculator →
      KnownCode calculator.calcHeader ∧ env.busOf calculator.calcHeader = 0 →
      Orderly env offset round sensors
  | refusedDiag {offset : Int} {round : Nat} {sensors : List Sensor}
      {fresh : CANDiagCalculator} :
      env.at offset 0 = canDiagHdrType → env.newDiag round = some fresh →
      CmdLenOk (env.at offset) → offset + diagSize (env.at offset) ≤ env.dataSz →
      commandsValid fresh (env.at offset) = some false → Orderly env offset round sensors
  | emptyDiag {offset : Int} {round : Nat} {sensors : List Sensor}
      {fresh : CANDiagCalculator} :
      env.at offset 0 = canDiagHdrType → env.newDiag round = some fresh →
      ¬CmdLenOk (env.at offset) → offset + sizeofCANDiagCalculatorHeader ≤ env.dataSz →
      Orderly env offset round sensors
  | recorder {offset : Int} {round : Nat} {sensors : List Sensor}
      {fresh : CANRecorderCalculator} :
      env.newRecorder round = some fresh → env.newSensor round = true →
      RecorderAccepted env offset →
      Orderly env (offset + recorderSize (env.at offset)) (round + 1)
        (withRecorder env sensors (recorderCalculator (env.at offset))) →
      Orderly env offset round sensors
  | lastRefusedRecorder {offset : Int} {round : Nat} {sensors : List Sensor}
      {fresh : CANRecorderCalculator} :
      env.at offset 0 = canRecorderHdrType → env.newRecorder round = some fresh →
      env.newSensor round = true → Parsable (env.at offset) →
      offset + recorderSize (env.at offset) = env.dataSz → ¬sensors.length < env.maxSensors →
      Orderly env offset round sensors

/-- The value of a round on an accepted diagnosis record. -/
theorem placeDiag_eq (env : Env) (st : LoopState) (offset : Int)
    (calculator : CANDiagCalculator) :
    placeDiag env st offset calculator =
      if KnownCode calculator.calcHeader ∧ env.busOf calculator.calcHeader = 0 then
        .done st.sensors
      else match placement env st.round st.sensors calculator with
        | none => .fault
        | some sensors => endCheck env st offset sensors := by
  rw [placeDiag,placement]
  by_cases hknown : KnownCode calculator.calcHeader
  · have hknown' : calculator.calcHeader.diagCode = 0x6A ∨
      calculator.calcHeader.diagCode = 0x68 := hknown
    rw [if_pos hknown',if_pos hknown]
    by_cases hbus : env.busOf calculator.calcHeader = 0
    · have hpins : ¬env.pins.busFromPins calculator.calcHeader.pinh
          calculator.calcHeader.pinl ≠ 0 := fun h => h hbus
      rw [if_neg hpins,if_pos ⟨hknown,hbus⟩]
    · have hpins : env.pins.busFromPins calculator.calcHeader.pinh
          calculator.calcHeader.pinl ≠ 0 := hbus
      have hserved : ¬(KnownCode calculator.calcHeader ∧ env.busOf calculator.calcHeader = 0) :=
        fun h => hbus h.2
      rw [if_pos hpins,if_neg hserved]
      split_ifs <;> rfl
  · have hknown' : ¬(calculator.calcHeader.diagCode = 0x6A ∨
      calculator.calcHeader.diagCode = 0x68) := hknown
    have hserved : ¬(KnownCode calculator.calcHeader ∧ env.busOf calculator.calcHeader = 0) :=
      fun h => hknown h.1
    rw [if_neg hknown',if_neg hknown,if_neg hserved]

section Rounds

variable {env : Env} {st : LoopState}

/-- The result of the round of a diagnosis record whose commands can be stored. -/
def diagNext (env : Env) (st : LoopState) (fresh : CANDiagCalculator) : Next :=
  match commandsValid fresh (env.at st.offset) with
  | none => .fault
  | some false => .done st.sensors
  | some true => placeDiag env st (st.offset + diagSize (env.at st.offset))
      ⟨true,true,.read (env.at st.offset),storedCommands fresh (env.at st.offset)⟩

theorem round_diag {fresh : CANDiagCalculator} (htype : env.at st.offset 0 = canDiagHdrType)
    (hnew : env.newDiag st.round = some fresh) (hlen : CmdLenOk (env.at st.offset)) :
    round env st =
      ⟨st.offset,diagSize (env.at st.offset),none,diagNext env st fresh⟩ := by
  have hset := diag_setData_of_cmdLenOk fresh htype hlen
  have hparse := parse_of_cmdLenOk fresh htype hlen
  rw [round,if_pos htype,diagRound,hnew,diagNext]
  simp only
  rw [hset,hparse]
  cases hvalid : commandsValid fresh (env.at st.offset) with
  | none => rfl
  | some valid =>
    have hsize : ((diagSize (env.at st.offset) : Nat) : Int) ≠ 0 := by
      simp only [diagSize,sizeofCANDiagCalculatorHeader]
      omega
    simp only [Option.map_some]
    rw [if_pos hsize]
    cases valid <;> rfl

/-- An accepted diagnosis record reaches the placing of its calculator. -/
theorem round_acceptedDiag {calculator : CANDiagCalculator}
    (haccepted : DiagAccepted env st.round st.offset calculator) :
    round env st = ⟨st.offset,diagSize (env.at st.offset),none,
      placeDiag env st (st.offset + diagSize (env.at st.offset)) calculator⟩ := by
  obtain ⟨fresh,hnew,hvalid,heq⟩ := haccepted.valid
  rw [round_diag haccepted.type hnew haccepted.cmdLen,diagNext,hvalid,heq]

theorem round_emptyDiag {fresh : CANDiagCalculator}
    (htype : env.at st.offset 0 = canDiagHdrType) (hnew : env.newDiag st.round = some fresh)
    (hlen : ¬CmdLenOk (env.at st.offset)) :
    round env st = ⟨st.offset,sizeofCANDiagCalculatorHeader,none,.done st.sensors⟩ := by
  obtain ⟨object,hset,hready⟩ := diag_setData_of_not_cmdLenOk fresh htype hlen
  rw [round,if_pos htype,diagRound,hnew]
  simp only
  rw [hset]
  simp only
  rw [if_pos (by decide),hready]
  rfl

theorem round_recorder {fresh : CANRecorderCalculator}
    (htype : env.at st.offset 0 = canRecorderHdrType)
    (hnew : env.newRecorder st.round = some fresh) :
    round env st =
      let result := fresh.setData (env.at st.offset)
      if env.newSensor st.round = true then
        ⟨st.offset,result.read,
          if st.sensors.length + 1 ≤ env.maxSensors then some result.object else none,
          endCheck env st (st.offset + result.value)
            (withRecorder env st.sensors result.object)⟩
      else ⟨st.offset,result.read,none,.fault⟩ := by
  have hvalue : (fresh.setData (env.at st.offset)).value ≠ 0 := by
    by_cases hparse : Parsable (env.at st.offset)
    · rw [setData_of_parsable fresh htype hparse]
      simp only [recorderSize]
      omega
    · obtain ⟨object,hset,-⟩ := setData_of_not_parsable fresh htype hparse
      rw [hset]
      exact Int.neg_ne_zero.mpr one_ne_zero
  have hother : ¬env.at st.offset 0 = canDiagHdrType := by
    rw [htype]
    decide
  rw [round,if_neg hother,if_pos htype,recorderRound,hnew]
  simp only [withRecorder]
  rw [if_pos hvalue]
  split_ifs <;> rfl

end Rounds

/-- What a round may read and add. -/
structure Round.Clean (env : Env) (this : Round) : Prop where
  inside : 0 ≤ this.offset ∧ this.offset + this.read ≤ env.dataSz
  ready : ∀ calculator ∈ this.recorder, calculator.ready = true

section Runs

variable {env : Env} {st : LoopState}

theorem inOrder_done {sensors : List Sensor} (fuel : Nat)
    (hnext : (round env st).next = .done sensors)
    (hclean : (round env st).Clean env) : InOrder env st.round (rounds env (fuel + 1) st) := by
  have hrounds : rounds env (fuel + 1) st = ([round env st],.returned sensors) := by
    rw [rounds]
    simp only
    rw [hnext]
  rw [hrounds]
  refine ⟨⟨sensors,rfl⟩,?_,?_,⟨fun h => absurd rfl h,trivial⟩⟩
  · intro this hthis
    rw [List.mem_singleton.mp hthis]
    exact hclean.inside
  · intro this hthis
    rw [List.mem_singleton.mp hthis]
    exact hclean.ready

theorem rounds_again {next : LoopState} (fuel : Nat) (hnext : (round env st).next = .again next) :
    rounds env (fuel + 1) st =
      (round env st :: (rounds env fuel next).1,(rounds env fuel next).2) := by
  rw [rounds]
  simp only
  rw [hnext]

theorem inOrder_again {next : LoopState} {fuel : Nat} (hnext : (round env st).next = .again next)
    (hclean : (round env st).Clean env)
    (haccepted : RecordAccepted env st.round (round env st).offset)
    (hrest : InOrder env (st.round + 1) (rounds env fuel next)) :
    InOrder env st.round (rounds env (fuel + 1) st) := by
  rw [rounds_again fuel hnext]
  refine ⟨hrest.returned,?_,?_,⟨fun _ => haccepted,hrest.stops⟩⟩
  · intro this hthis
    rcases List.mem_cons.mp hthis with rfl | hlater
    · exact hclean.inside
    · exact hrest.inside this hlater
  · intro this hthis
    rcases List.mem_cons.mp hthis with rfl | hlater
    · exact hclean.ready
    · exact hrest.ready this hlater

theorem rounds_ne_nil {fuel : Nat} {sensors : List Sensor}
    (hreturned : (rounds env fuel st).2 = .returned sensors) : (rounds env fuel st).1 ≠ [] := by
  cases fuel with
  | zero => cases hreturned
  | succ fuel =>
    rw [rounds]
    cases (round env st).next <;> simp

/-- What a call that ends in order tells about its first round. -/
theorem inOrder_cases {fuel : Nat} (horder : InOrder env st.round (rounds env fuel st)) :
    (round env st).Clean env ∧ ((∃ sensors, (round env st).next = .done sensors) ∨
      ∃ next fuel', (round env st).next = .again next ∧ fuel = fuel' + 1 ∧
        RecordAccepted env st.round (round env st).offset ∧
        InOrder env (st.round + 1) (rounds env fuel' next)) := by
  cases fuel with
  | zero =>
    obtain ⟨sensors,hreturned⟩ := horder.returned
    cases hreturned
  | succ fuel =>
    have hmem : round env st ∈ (rounds env (fuel + 1) st).1 := by
      rw [rounds]
      cases (round env st).next <;> simp
    refine ⟨⟨horder.inside _ hmem,horder.ready _ hmem⟩,?_⟩
    cases hnext : (round env st).next with
    | done sensors => exact .inl ⟨sensors,rfl⟩
    | fault =>
      obtain ⟨sensors,hreturned⟩ := horder.returned
      rw [rounds] at hreturned
      simp only at hreturned
      rw [hnext] at hreturned
      cases hreturned
    | again next =>
      right
      rw [rounds_again fuel hnext] at horder
      obtain ⟨sensors,hreturned⟩ := horder.returned
      refine ⟨next,fuel,rfl,rfl,horder.stops.1 (rounds_ne_nil hreturned),⟨sensors,hreturned⟩,?_,?_,
        horder.stops.2⟩
      · exact fun this hthis => horder.inside this (List.mem_cons_of_mem _ hthis)
      · exact fun this hthis => horder.ready this (List.mem_cons_of_mem _ hthis)

/-- A round that ends with the check for the end of the data. -/
theorem inOrder_endCheck {offset : Int} {sensors : List Sensor} {fuel : Nat}
    (hnext : (round env st).next = endCheck env st offset sensors)
    (horder : InOrder env st.round (rounds env fuel st)) :
    env.dataSz ≤ offset ∨ offset < env.dataSz ∧ ∃ fuel', fuel = fuel' + 1 ∧
      RecordAccepted env st.round (round env st).offset ∧
      InOrder env (st.round + 1) (rounds env fuel' ⟨offset,st.round + 1,sensors⟩) := by
  by_cases hend : offset ≥ env.dataSz
  · exact .inl hend
  · right
    rw [endCheck,if_neg hend] at hnext
    obtain ⟨-,⟨sensors',hdone⟩ | ⟨next,fuel',hagain,hfuel,haccepted,hrest⟩⟩ := inOrder_cases horder
    · rw [hnext] at hdone
      cases hdone
    · rw [hnext] at hagain
      cases hagain
      exact ⟨by omega,fuel',hfuel,haccepted,hrest⟩

theorem exists_inOrder_endCheck {offset : Int} {sensors : List Sensor}
    (hnext : (round env st).next = endCheck env st offset sensors)
    (hclean : (round env st).Clean env)
    (haccepted : RecordAccepted env st.round (round env st).offset)
    (hrest : env.dataSz ≤ offset ∨
      ∃ fuel, InOrder env (st.round + 1) (rounds env fuel ⟨offset,st.round + 1,sensors⟩)) :
    ∃ fuel, InOrder env st.round (rounds env fuel st) := by
  by_cases hend : offset ≥ env.dataSz
  · rw [endCheck,if_pos hend] at hnext
    exact ⟨1,inOrder_done 0 hnext hclean⟩
  · rw [endCheck,if_neg hend] at hnext
    rcases hrest with hle | ⟨fuel,hrest⟩
    · exact absurd hle hend
    · exact ⟨fuel + 1,inOrder_again hnext hclean haccepted hrest⟩

theorem not_fault_of_inOrder {fuel : Nat} (horder : InOrder env st.round (rounds env fuel st)) :
    (round env st).next ≠ .fault := by
  intro hfault
  obtain ⟨-,⟨sensors,hdone⟩ | ⟨next,fuel',hagain,-⟩⟩ := inOrder_cases horder
  · rw [hfault] at hdone
    cases hdone
  · rw [hfault] at hagain
    cases hagain

/-- What the induction over the rounds knows about the later ones. -/
def LaterOrderly (env : Env) (fuel : Nat) : Prop :=
  ∀ next : LoopState, 0 ≤ next.offset → next.offset < env.dataSz →
    InOrder env next.round (rounds env fuel next) → Orderly env next.offset next.round next.sensors

theorem orderly_of_diagRound {fuel : Nat} (hpos : 0 ≤ st.offset)
    (horder : InOrder env st.round (rounds env (fuel + 1) st)) (hlater : LaterOrderly env fuel)
    (htype : env.at st.offset 0 = canDiagHdrType) : Orderly env st.offset st.round st.sensors := by
  have hclean := (inOrder_cases horder).1
  have hnofault := not_fault_of_inOrder horder
  cases hnew : env.newDiag st.round with
  | none =>
    rw [round,if_pos htype,diagRound,hnew] at hnofault
    exact absurd rfl hnofault
  | some fresh =>
    by_cases hlen : CmdLenOk (env.at st.offset)
    · have hround := round_diag htype hnew hlen
      rw [hround] at hclean hnofault
      cases hvalid : commandsValid fresh (env.at st.offset) with
      | none =>
        rw [diagNext,hvalid] at hnofault
        exact absurd rfl hnofault
      | some valid =>
        cases valid with
        | false => exact .refusedDiag htype hnew hlen hclean.inside.2 hvalid
        | true =>
          have haccepted : DiagAccepted env st.round st.offset _ :=
            ⟨htype,hlen,hclean.inside.2,fresh,hnew,hvalid,rfl⟩
          rw [diagNext,hvalid] at hround hnofault
          simp only [placeDiag_eq] at hround hnofault
          split_ifs at hround with hbusless
          · exact .buslessDiag haccepted hbusless
          · rw [if_neg hbusless] at hnofault
            split at hround
            · rename_i hplacement
              rw [hplacement] at hnofault
              exact absurd rfl hnofault
            · rename_i placed hplacement
              apply Orderly.diag haccepted hbusless hplacement
              have hnext : (round env st).next = endCheck env st
                  (st.offset + diagSize (env.at st.offset)) placed := by rw [hround]
              rcases inOrder_endCheck hnext horder with hend | ⟨hmore,fuel',hfuel,-,hrest⟩
              · exact .finished hend
              · cases hfuel
                exact hlater ⟨_,_,_⟩ (by dsimp only; omega) hmore hrest
    · have hround := round_emptyDiag htype hnew hlen
      rw [hround] at hclean
      exact .emptyDiag htype hnew hlen hclean.inside.2

theorem orderly_of_recorderRound {fuel : Nat} (hpos : 0 ≤ st.offset) (hlt : st.offset < env.dataSz)
    (horder : InOrder env st.round (rounds env (fuel + 1) st)) (hlater : LaterOrderly env fuel)
    (htype : env.at st.offset 0 = canRecorderHdrType) :
    Orderly env st.offset st.round st.sensors := by
  have hclean := (inOrder_cases horder).1
  have hnofault := not_fault_of_inOrder horder
  have hother : ¬env.at st.offset 0 = canDiagHdrType := by
    rw [htype]
    decide
  cases hnew : env.newRecorder st.round with
  | none =>
    rw [round,if_neg hother,if_pos htype,recorderRound,hnew] at hnofault
    exact absurd rfl hnofault
  | some fresh =>
    have hround := round_recorder htype hnew
    simp only at hround
    by_cases hroom : env.newSensor st.round = true
    · rw [if_pos hroom] at hround
      have hoffset : (round env st).offset = st.offset := by rw [hround]
      have hnext : (round env st).next = endCheck env st
          (st.offset + (fresh.setData (env.at st.offset)).value)
          (withRecorder env st.sensors (fresh.setData (env.at st.offset)).object) := by
        rw [hround]
      by_cases hparse : Parsable (env.at st.offset)
      · have hset := setData_of_parsable fresh htype hparse
        have hfits : st.offset + recorderSize (env.at st.offset) ≤ env.dataSz := by
          have hinside := hclean.inside.2
          rw [hround,hset] at hinside
          exact hinside
        by_cases hvalid : ∀ entry ∈ CANRecorderCalculator.entriesOf (env.at st.offset)
            (env.at st.offset 13), entry.InFrame
        · rw [hset,(validEntries_iff _).mpr hvalid] at hnext
          apply Orderly.recorder hnew hroom ⟨htype,hparse,hfits,hvalid⟩
          rcases inOrder_endCheck hnext horder with hend | ⟨hmore,fuel',hfuel,-,hrest⟩
          · exact .finished hend
          · cases hfuel
            exact hlater ⟨_,_,_⟩ (by dsimp only; omega) hmore hrest
        · have hfull : ¬st.sensors.length < env.maxSensors := by
            intro hfree
            have hplace : st.sensors.length + 1 ≤ env.maxSensors := hfree
            have hready := hclean.ready
            rw [hround,if_pos hplace,hset] at hready
            exact hvalid ((validEntries_iff _).mp (hready _ rfl))
          rw [hset] at hnext
          rcases inOrder_endCheck hnext horder with hend | ⟨-,-,-,haccepted,-⟩
          · apply Orderly.lastRefusedRecorder htype hnew hroom hparse _ hfull
            dsimp only at hend
            omega
          · rw [hoffset] at haccepted
            rcases haccepted with ⟨calculator,h⟩ | h
            · exact absurd h.type hother
            · exact absurd h.valid hvalid
      · obtain ⟨object,hset,-⟩ := setData_of_not_parsable fresh htype hparse
        rw [hset] at hnext
        rcases inOrder_endCheck hnext horder with hend | ⟨-,-,-,haccepted,-⟩
        · dsimp only at hend
          omega
        · rw [hoffset] at haccepted
          rcases haccepted with ⟨calculator,h⟩ | h
          · exact absurd h.type hother
          · exact absurd h.parsable hparse
    · rw [hround,if_neg hroom] at hnofault
      exact absurd rfl hnofault

/-- A record of an unknown type is met again and again. -/
theorem not_inOrder_unknownType {fuel : Nat} (hlt : st.offset < env.dataSz)
    (hdiag : ¬env.at st.offset 0 = canDiagHdrType)
    (hrec : ¬env.at st.offset 0 = canRecorderHdrType) :
    ¬InOrder env st.round (rounds env fuel st) := by
  intro horder
  have hround : round env st = ⟨st.offset,1,none,endCheck env st st.offset st.sensors⟩ := by
    rw [round,if_neg hdiag,if_neg hrec]
  have hnext : (round env st).next = endCheck env st st.offset st.sensors := by rw [hround]
  rcases inOrder_endCheck hnext horder with hend | ⟨-,-,-,haccepted,-⟩
  · omega
  · rw [hround] at haccepted
    rcases haccepted with ⟨calculator,h⟩ | h
    · exact hdiag h.type
    · exact hrec h.type

/-- A call that ends in order has met orderly records. -/
theorem orderly_of_inOrder (fuel : Nat) : LaterOrderly env fuel := by
  induction fuel with
  | zero =>
    intro st _ _ horder
    obtain ⟨sensors,hreturned⟩ := horder.returned
    cases hreturned
  | succ fuel ih =>
    intro st hpos hlt horder
    by_cases hdiag : env.at st.offset 0 = canDiagHdrType
    · exact orderly_of_diagRound hpos horder ih hdiag
    · by_cases hrec : env.at st.offset 0 = canRecorderHdrType
      · exact orderly_of_recorderRound hpos hlt horder ih hrec
      · exact absurd horder (not_inOrder_unknownType hlt hdiag hrec)

/-- A round that only reads and leaves the loop. -/
theorem exists_inOrder_of_done {read : Nat} {sensors : List Sensor}
    (hround : round env st = ⟨st.offset,read,none,.done sensors⟩) (hpos : 0 ≤ st.offset)
    (hcomplete : st.offset + read ≤ env.dataSz) :
    ∃ fuel, InOrder env st.round (rounds env fuel st) := by
  refine ⟨1,inOrder_done 0 (congrArg Round.next hround) ?_⟩
  rw [hround]
  exact ⟨⟨hpos,hcomplete⟩,fun _ h => by cases h⟩

/-- Over orderly records the call ends in order. -/
theorem exists_inOrder_of_orderly {offset : Int} {first : Nat} {sensors : List Sensor}
    (horderly : Orderly env offset first sensors) (hpos : 0 ≤ offset) :
    env.dataSz ≤ offset ∨ ∃ fuel, InOrder env first (rounds env fuel ⟨offset,first,sensors⟩) := by
  induction horderly with
  | finished hend => exact .inl hend
  | @diag offset first sensors placed calculator haccepted hserved hplacement _ ih =>
    right
    have hround : round env ⟨offset,first,sensors⟩ = _ := round_acceptedDiag haccepted
    rw [placeDiag_eq,if_neg hserved,hplacement] at hround
    apply exists_inOrder_endCheck (congrArg Round.next hround)
    · rw [hround]
      exact ⟨⟨hpos,haccepted.complete⟩,fun _ h => by cases h⟩
    · rw [hround]
      exact .inl ⟨calculator,haccepted⟩
    · exact ih (by omega)
  | @buslessDiag offset first sensors calculator haccepted hbusless =>
    right
    have hround : round env ⟨offset,first,sensors⟩ = _ := round_acceptedDiag haccepted
    rw [placeDiag_eq,if_pos hbusless] at hround
    exact exists_inOrder_of_done hround hpos haccepted.complete
  | @refusedDiag offset first sensors fresh htype hnew hlen hcomplete hvalid =>
    right
    have hround : round env ⟨offset,first,sensors⟩ = _ := round_diag htype hnew hlen
    simp only [diagNext] at hround
    rw [hvalid] at hround
    exact exists_inOrder_of_done hround hpos hcomplete
  | @emptyDiag offset first sensors fresh htype hnew hlen hcomplete =>
    right
    have hround : round env ⟨offset,first,sensors⟩ = _ := round_emptyDiag htype hnew hlen
    exact exists_inOrder_of_done hround hpos hcomplete
  | @recorder offset first sensors fresh hnew hroom haccepted _ ih =>
    right
    have hround : round env ⟨offset,first,sensors⟩ = _ := round_recorder haccepted.type hnew
    simp only at hround
    rw [if_pos hroom,setData_of_parsable fresh haccepted.type haccepted.parsable,
      (validEntries_iff _).mpr haccepted.valid] at hround
    apply exists_inOrder_endCheck (congrArg Round.next hround)
    · rw [hround]
      refine ⟨⟨hpos,haccepted.complete⟩,?_⟩
      intro calculator hmem
      dsimp only at hmem
      split_ifs at hmem with hfree
      · cases hmem
        rfl
      · cases hmem
    · rw [hround]
      exact .inr haccepted
    · exact ih (by omega)
  | @lastRefusedRecorder offset first sensors fresh htype hnew hroom hparse hend hfull =>
    right
    have hround : round env ⟨offset,first,sensors⟩ = _ := round_recorder htype hnew
    have hplace : ¬sensors.length + 1 ≤ env.maxSensors := hfull
    simp only at hround
    rw [if_pos hroom,setData_of_parsable fresh htype hparse,if_neg hplace,endCheck] at hround
    dsimp only at hround
    rw [if_pos hend.ge] at hround
    exact exists_inOrder_of_done hround hpos hend.le

end Runs

/-- The claimed end of a call, which holds exactly when the lock is not obtained or the records
are orderly. -/
theorem newDynSensors_exact (env : Env) (lock : OsStatus) (sensors : List Sensor)
    (hsize : 0 < env.dataSz) :
    (∃ fuel, InOrder env 0 (newDynSensors env lock sensors fuel)) ↔
      lock ≠ .osOK ∨ Orderly env 0 0 sensors := by
  by_cases hlock : lock = .osOK
  · subst hlock
    constructor
    · rintro ⟨fuel,horder⟩
      exact .inr (orderly_of_inOrder fuel ⟨0,0,sensors⟩ le_rfl hsize horder)
    · rintro (h | horderly)
      · exact absurd rfl h
      · rcases exists_inOrder_of_orderly horderly le_rfl with hend | hrun
        · exact absurd hsize (not_lt.mpr hend)
        · exact hrun
  · have hrun : newDynSensors env lock sensors 0 = ([],.returned sensors) := by
      cases lock with
      | osOK => exact absurd rfl hlock
      | osEventTimeout => rfl
      | osError => rfl
    refine iff_of_true ⟨0,?_⟩ (.inl hlock)
    rw [hrun]
    exact ⟨⟨sensors,rfl⟩,fun _ h => absurd h List.not_mem_nil,fun _ h => absurd h List.not_mem_nil,
      trivial⟩

/-- A device with room for two sensors that receives `data`. -/
def receiving (data : List UInt8) : Env where
  memory := fun i => data.getD i.toNat 0
  dataSz := data.length
  pins := ⟨6,14,3,11⟩
  maxSensors := 2
  newDiag := fun _ => none
  newRecorder := fun _ => some ⟨false,false,⟨0,0,0,0,0,0,0⟩,[]⟩
  newSensor := fun _ => true

/-- One record with one chunk of eight bytes. -/
def oneRecorder : List UInt8 := [2,1,0,0,0,0xF4,1,0xE8,7,0,0,6,14,1,0,8]

theorem newDynSensors_exact_oneRecorder :
    ∃ fuel, InOrder (receiving oneRecorder) 0
      (newDynSensors (receiving oneRecorder) .osOK [] fuel) := by
  have haccepted : RecorderAccepted (receiving oneRecorder) 0 :=
    ⟨rfl,⟨by decide,by decide⟩,by decide,by simp only [CANRecorderData.InFrame]; decide⟩
  apply (newDynSensors_exact (receiving oneRecorder) .osOK [] (by decide)).mpr
  right
  apply Orderly.recorder rfl rfl haccepted
  exact .finished (by decide)

/-- A record of an unknown type keeps the call from returning, however long it runs. -/
theorem newDynSensors_unknownType :
    0 < (receiving [3]).dataSz ∧ ∀ fuel,
      (newDynSensors (receiving [3]) .osOK [] fuel).2 = .outOfFuel ∧
      ¬InOrder (receiving [3]) 0 (newDynSensors (receiving [3]) .osOK [] fuel) := by
  refine ⟨by decide,fun fuel => ⟨?_,?_⟩⟩
  · have hround (first : Nat) : (round (receiving [3]) ⟨0,first,[]⟩).next =
        .again ⟨0,first + 1,[]⟩ := rfl
    have hloop (first : Nat) : (rounds (receiving [3]) fuel ⟨0,first,[]⟩).2 = .outOfFuel := by
      induction fuel generalizing first with
      | zero => rfl
      | succ fuel ih =>
        rw [rounds_again fuel (hround first)]
        exact ih (first + 1)
    exact hloop 0
  · let st : LoopState := ⟨0,0,[]⟩
    have hlt : st.offset < (receiving [3]).dataSz := by decide
    have hdiag : ¬(receiving [3]).at st.offset 0 = canDiagHdrType := by decide
    have hrec : ¬(receiving [3]).at st.offset 0 = canRecorderHdrType := by decide
    exact not_inOrder_unknownType hlt hdiag hrec

end Pyrn.Device
