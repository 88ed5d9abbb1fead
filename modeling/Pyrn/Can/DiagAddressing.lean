import Pyrn.Can.DiagSensor

/-!
# The addresses of a diagnosis

`AddCalculator` does not tell the communicator, which goes on with the addresses and the
acknowledge command of the first calculator.
-/

namespace Pyrn.Can

/-- The piece of traffic uses the addresses and the acknowledge command of the calculator. -/
def Addresses (calculator : CANDiagCalculator) : Traffic → Prop
  | .listen id => id = calculator.calcHeader.addrDst
  | .send id _ => id = calculator.calcHeader.addrSrc
  | .acknowledge command => CANCommunicator6A.ackMessage calculator = some command
  | .unlisten id => id = calculator.calcHeader.addrDst

/-- The message that acknowledges a first frame. -/
def Traffic.acknowledged : Traffic → Option CANMessage
  | .acknowledge command => command
  | _ => none

/-- The whole session uses them. -/
def Session.Addressed (session : Session) (calculator : CANDiagCalculator) : Prop :=
  ∀ traffic ∈ session.traffic, Addresses calculator traffic

/-- A calculator for which no command is executed: there is no start command, and nothing that
would be sent behind it. A search that leaves the memory ends the round. -/
def Silent (kind : DiagKind) (calculator : CANDiagCalculator) : Prop :=
  calculator.firstCommand CommandType.cmdDiagStart.code = none ∨
    calculator.firstCommand CommandType.cmdDiagStart.code = some none ∧
      match kind with
      | .diag6A => ∀ hdrCmd,
          calculator.firstCommand CommandType.cmdKeepAlive.code ≠ some (some hdrCmd)
      | .diag68 => ∀ hdrCmd,
          calculator.firstCommand CommandType.cmdNorm.code ≠ some (some hdrCmd)

/-- The first calculator stands in for the other one. -/
structure StandsIn (kind : DiagKind) (first calculator : CANDiagCalculator) : Prop where
  addrDst : first.calcHeader.addrDst = calculator.calcHeader.addrDst
  addrSrc : first.calcHeader.addrSrc = calculator.calcHeader.addrSrc
  acknowledge : kind = .diag6A → ∀ command, CANCommunicator6A.ackMessage first = some command →
    CANCommunicator6A.ackMessage calculator = some command

section

variable {sensor : CANDiagSensor} {calculator : CANDiagCalculator} {traffic : Traffic}

theorem mem_andThen {first next : Session} (h : traffic ∈ (first.andThen next).traffic) :
    traffic ∈ first.traffic ∨ traffic ∈ next.traffic := by
  rw [Session.andThen] at h
  split_ifs at h
  · exact List.mem_append.mp h
  · exact Or.inl h

theorem mem_andThen_left {first next : Session} (h : traffic ∈ first.traffic) :
    traffic ∈ (first.andThen next).traffic := by
  rw [Session.andThen]
  split_ifs
  · exact List.mem_append_left _ h
  · exact h

theorem mem_andThen_right {first next : Session} (hgoes : first.goesOn = true)
    (h : traffic ∈ next.traffic) : traffic ∈ (first.andThen next).traffic := by
  rw [Session.andThen,if_pos hgoes]
  exact List.mem_append_right _ h

theorem Session.Addressed.andThen {first next : Session} (hfirst : first.Addressed calculator)
    (hnext : next.Addressed calculator) : (first.andThen next).Addressed calculator := by
  intro traffic h
  rcases mem_andThen h with h | h
  · exact hfirst traffic h
  · exact hnext traffic h

theorem addressed_quiet (goesOn : Bool) : (Session.quiet goesOn).Addressed calculator := by
  intro traffic h
  cases h

/-- The messages that the loop sends are the acknowledge commands that it finds. -/
theorem onEvent_sent {st : Execution} {evt : OsEvent} {progress : Progress}
    {sent : List CANMessage}
    (h : CANCommunicator6A.onEvent calculator st evt = some (progress,sent)) :
    (acknowledgement calculator st evt).filterMap Traffic.acknowledged = sent := by
  cases evt with
  | message msg =>
    rw [CANCommunicator6A.onEvent] at h
    cases hstate : st.state with
    | idle =>
      simp only [hstate,CANCommunicator6A.onIdle] at h
      by_cases hshort : msg.byte 0 &&& 0xF0 = 0x00
      · rw [if_pos hshort] at h
        obtain ⟨data,-,h⟩ := Option.bind_eq_some_iff.mp h
        obtain ⟨response,-,h⟩ := Option.bind_eq_some_iff.mp h
        obtain ⟨-,rfl⟩ := Prod.mk.inj (Option.some.inj h)
        simp [acknowledgement,startsSegmented,hshort]
      · rw [if_neg hshort] at h
        by_cases hfirst : msg.byte 0 = 0x10
        · rw [if_pos hfirst] at h
          obtain ⟨data,-,h⟩ := Option.bind_eq_some_iff.mp h
          obtain ⟨response,-,h⟩ := Option.bind_eq_some_iff.mp h
          obtain ⟨ack,hack,h⟩ := Option.bind_eq_some_iff.mp h
          have hframe : startsSegmented st (.message msg) = true := by
            simp [startsSegmented,hstate,hfirst]
            decide
          rw [acknowledgement,if_pos hframe,hack]
          cases ack with
          | none =>
            obtain ⟨-,rfl⟩ := Prod.mk.inj (Option.some.inj h)
            rfl
          | some ack =>
            obtain ⟨-,rfl⟩ := Prod.mk.inj (Option.some.inj h)
            rfl
        · rw [if_neg hfirst] at h
          obtain ⟨-,rfl⟩ := Prod.mk.inj (Option.some.inj h)
          simp [acknowledgement,startsSegmented,hfirst]
    | extCmd =>
      have hframe : startsSegmented st (.message msg) = false := by
        simp [startsSegmented,hstate]
      have hsent : sent = [] := by
        simp only [hstate,CANCommunicator6A.onExtCmd] at h
        by_cases hnext : msg.byte 0 &&& 0xF0 = 0x20
        · rw [if_pos hnext] at h
          obtain ⟨data,-,h⟩ := Option.bind_eq_some_iff.mp h
          obtain ⟨response,-,h⟩ := Option.bind_eq_some_iff.mp h
          split at h <;> split at h <;> exact (Prod.mk.inj (Option.some.inj h)).2.symm
        · rw [if_neg hnext] at h
          exact (Prod.mk.inj (Option.some.inj h)).2.symm
      rw [acknowledgement,hframe,hsent]
      rfl
  | timeout =>
    obtain ⟨-,rfl⟩ := Prod.mk.inj (Option.some.inj h)
    rfl
  | other =>
    obtain ⟨-,rfl⟩ := Prod.mk.inj (Option.some.inj h)
    rfl

theorem acknowledgement_addressed {st : Execution} {evt : OsEvent} :
    ∀ traffic ∈ acknowledgement calculator st evt, ∃ command,
      traffic = .acknowledge command ∧ CANCommunicator6A.ackMessage calculator = some command := by
  intro traffic h
  rw [acknowledgement] at h
  split_ifs at h
  · obtain ⟨command,hcommand,rfl⟩ := List.mem_map.mp h
    exact ⟨command,rfl,Option.mem_toList.mp hcommand⟩
  · cases h

theorem waitTraffic_addressed {first : CANDiagCalculator} {st : Execution} {evts : List OsEvent} :
    ∀ traffic ∈ (waitTraffic first st evts).traffic, ∃ command,
      traffic = .acknowledge command ∧ CANCommunicator6A.ackMessage first = some command := by
  induction evts generalizing st with
  | nil =>
    intro traffic h
    cases h
  | cons evt evts ih =>
    intro traffic h
    rw [waitTraffic] at h
    split at h
    · exact acknowledgement_addressed traffic h
    · rcases mem_andThen h with h | h
      · exact acknowledgement_addressed traffic h
      · exact ih traffic h
    · exact acknowledgement_addressed traffic h

theorem executeCommand_diag6A (com : CANCommunicatorMaster) (data : List UInt8)
    (responseSz : Nat) (evts : List OsEvent) :
    executeCommand .diag6A com data responseSz evts =
      (Session.mk [.listen com.calculator.calcHeader.addrDst,
          .send com.calculator.calcHeader.addrSrc data] true).andThen
        ((waitTraffic com.calculator
            (CANCommunicator6A.start (List.replicate responseSz 0)) evts).andThen
          ⟨[.unlisten com.calculator.calcHeader.addrDst],true⟩) :=
  if_pos com.bus_ne_zero

theorem executeCommand_diag68 (com : CANCommunicatorMaster) (data : List UInt8)
    (responseSz : Nat) (evts : List OsEvent) :
    executeCommand .diag68 com data responseSz evts =
      (Session.mk [.listen com.calculator.calcHeader.addrDst,.send
          com.calculator.calcHeader.addrSrc ((data ++ List.replicate 8 0).take 8)] true).andThen
        ((wait68 responseSz evts).andThen
          ⟨[.unlisten com.calculator.calcHeader.addrDst],true⟩) :=
  if_pos com.bus_ne_zero

/-- A communicator whose calculator stands in for another one addresses that one. -/
theorem executeCommand_addressed {kind : DiagKind} {com : CANCommunicatorMaster}
    (hstands : StandsIn kind com.calculator calculator) (data : List UInt8) (responseSz : Nat)
    (evts : List OsEvent) :
    (executeCommand kind com data responseSz evts).Addressed calculator := by
  have hends : (Session.mk [.unlisten com.calculator.calcHeader.addrDst] true).Addressed
      calculator := by
    intro traffic h
    rw [List.mem_singleton.mp h]
    exact hstands.addrDst
  have hbegins (data : List UInt8) :
      (Session.mk [.listen com.calculator.calcHeader.addrDst,
        .send com.calculator.calcHeader.addrSrc data] true).Addressed calculator := by
    intro traffic h
    rcases List.mem_cons.mp h with rfl | h
    · exact hstands.addrDst
    · rw [List.mem_singleton.mp h]
      exact hstands.addrSrc
  cases kind with
  | diag6A =>
    rw [executeCommand_diag6A]
    refine (hbegins data).andThen (Session.Addressed.andThen ?_ hends)
    intro traffic h
    obtain ⟨command,rfl,hcommand⟩ := waitTraffic_addressed traffic h
    exact hstands.acknowledge rfl command hcommand
  | diag68 =>
    rw [executeCommand_diag68]
    refine (hbegins _).andThen (Session.Addressed.andThen ?_ hends)
    cases evts with
    | nil => exact addressed_quiet false
    | cons evt evts => cases evt <;> exact addressed_quiet _

theorem keepAliveTicks_addressed
    (hstands : StandsIn sensor.kind sensor.comHandler.calculator calculator)
    (ticks : List (List OsEvent)) :
    (keepAliveTicks sensor calculator ticks).Addressed calculator := by
  induction ticks with
  | nil => exact addressed_quiet true
  | cons evts ticks ih =>
    refine Session.Addressed.andThen ?_ ih
    rw [keepAliveSequence]
    split
    · exact addressed_quiet true
    · exact addressed_quiet false
    · exact addressed_quiet true
    next hkind _ =>
      rw [hkind] at hstands
      exact executeCommand_addressed hstands _ _ _

theorem diagRounds_addressed
    (hstands : StandsIn sensor.kind sensor.comHandler.calculator calculator)
    (hdrCmd : CANDiagCommand) (rounds : List DiagRound) :
    (diagRounds sensor calculator hdrCmd rounds).Addressed calculator := by
  induction rounds generalizing hdrCmd with
  | nil => exact addressed_quiet true
  | cons round rounds ih =>
    refine (executeCommand_addressed hstands _ _ _).andThen
      ((keepAliveTicks_addressed hstands _).andThen ?_)
    split
    · exact addressed_quiet false
    · exact addressed_quiet true
    · exact ih _

theorem loopRound_addressed (hstands : StandsIn sensor.kind sensor.comHandler.calculator calculator)
    (env : DiagEnvironment) : (loopRound sensor calculator env).Addressed calculator := by
  refine Session.Addressed.andThen ?_ (Session.Addressed.andThen ?_
    ((keepAliveTicks_addressed hstands _).andThen ?_))
  · rw [diagStart]
    split
    · exact addressed_quiet false
    · exact addressed_quiet true
    · exact executeCommand_addressed hstands _ _ _
  · rw [keepAliveStart]
    split <;> exact addressed_quiet _
  · rw [diagSequence]
    split
    · exact addressed_quiet false
    · exact addressed_quiet true
    · exact diagRounds_addressed hstands _ _

theorem keepAliveTicks_diag68 (hkind : sensor.kind = .diag68) (ticks : List (List OsEvent)) :
    keepAliveTicks sensor calculator ticks = .quiet true := by
  induction ticks with
  | nil => rfl
  | cons evts ticks ih =>
    rw [keepAliveTicks,ih,keepAliveSequence,hkind]
    rfl

/-- A round for a silent calculator has no traffic. -/
theorem loopRound_silent (hsilent : Silent sensor.kind calculator) (env : DiagEnvironment) :
    (loopRound sensor calculator env).Addressed calculator := by
  rcases hsilent with hfault | ⟨hnone,hnothing⟩
  · rw [loopRound,diagStart,hfault]
    exact addressed_quiet false
  · have hstart : diagStart sensor calculator env.start = .quiet true := by
      rw [diagStart,hnone]
    rw [loopRound,hstart]
    refine (addressed_quiet true).andThen ?_
    cases hkind : sensor.kind with
    | diag6A =>
      rw [hkind] at hnothing
      have hkeep : keepAliveStart sensor calculator = .quiet false := by
        rw [keepAliveStart,hkind]
        split
        next h => cases h
        next found => exact absurd found (hnothing _)
        · rfl
      rw [hkeep]
      exact addressed_quiet false
    | diag68 =>
      rw [hkind] at hnothing
      have hkeep : keepAliveStart sensor calculator = .quiet true := by
        rw [keepAliveStart,hkind]
      have hsequence (rounds : List DiagRound) :
          (diagSequence sensor calculator rounds).Addressed calculator := by
        rw [diagSequence]
        split
        · exact addressed_quiet false
        · exact addressed_quiet true
        next hdrCmd hfound => exact absurd hfound (hnothing hdrCmd)
      rw [hkeep,keepAliveTicks_diag68 hkind]
      exact (addressed_quiet true).andThen ((addressed_quiet true).andThen (hsequence _))

/-- An extended reply begins. -/
def extendedReply : OsEvent := .message (.ofData 0 [0x10,0x07] (by decide))

/-- The traffic of one command shows all that the communicator takes from its calculator. -/
theorem standsIn_of_addressed {kind : DiagKind} {com : CANCommunicatorMaster} {data : List UInt8}
    {responseSz : Nat}
    (h : (executeCommand kind com data responseSz [extendedReply]).Addressed calculator) :
    StandsIn kind com.calculator calculator := by
  have hbegins (traffic : Traffic) (sent : List UInt8)
      (hmem : traffic ∈ [Traffic.listen com.calculator.calcHeader.addrDst,
        .send com.calculator.calcHeader.addrSrc sent]) (rest : Session) :
      traffic ∈ (Session.andThen ⟨[.listen com.calculator.calcHeader.addrDst,
        .send com.calculator.calcHeader.addrSrc sent],true⟩ rest).traffic := mem_andThen_left hmem
  cases kind with
  | diag6A =>
    rw [executeCommand_diag6A] at h
    refine ⟨h _ (hbegins _ _ List.mem_cons_self _),
      h (.send _ _) (hbegins _ _ (List.mem_cons_of_mem _ List.mem_cons_self) _),?_⟩
    intro _ command hcommand
    refine h (.acknowledge command) (mem_andThen_right rfl (mem_andThen_left ?_))
    have hack : acknowledgement com.calculator
        (CANCommunicator6A.start (List.replicate responseSz 0)) extendedReply =
          [.acknowledge command] := by
      rw [acknowledgement,hcommand]
      rfl
    rw [waitTraffic,hack]
    split
    · exact List.mem_singleton_self _
    · exact mem_andThen_left (List.mem_singleton_self _)
    · exact List.mem_singleton_self _
  | diag68 =>
    rw [executeCommand_diag68] at h
    refine ⟨h _ (hbegins _ _ List.mem_cons_self _),
      h (.send _ _) (hbegins _ _ (List.mem_cons_of_mem _ List.mem_cons_self) _),?_⟩
    intro hkind
    cases hkind

/-- Unless the calculator is silent, there is an environment in which a command is executed. -/
theorem exists_command (htalks : ¬Silent sensor.kind calculator) : ∃ env data responseSz,
    ∀ traffic ∈ (executeCommand sensor.kind sensor.comHandler data responseSz
      [extendedReply]).traffic, traffic ∈ (loopRound sensor calculator env).traffic := by
  cases hstart : calculator.firstCommand CommandType.cmdDiagStart.code with
  | none => exact absurd (Or.inl hstart) htalks
  | some found =>
    cases found with
    | some hdrCmd =>
      refine ⟨⟨[extendedReply],[],[]⟩,hdrCmd.cmd.take hdrCmd.size,32,fun traffic h => ?_⟩
      rw [loopRound,diagStart,hstart]
      exact mem_andThen_left h
    | none =>
      have hquiet (evts : List OsEvent) : diagStart sensor calculator evts = .quiet true := by
        rw [diagStart,hstart]
      cases hkind : sensor.kind with
      | diag6A =>
        have hkeep : ∃ hdrCmd, calculator.firstCommand CommandType.cmdKeepAlive.code =
            some (some hdrCmd) := by
          by_contra hmissing
          refine htalks (Or.inr ⟨hstart,?_⟩)
          rw [hkind]
          exact fun hdrCmd hfound => hmissing ⟨hdrCmd,hfound⟩
        obtain ⟨hdrCmd,hfound⟩ := hkeep
        refine ⟨⟨[],[[extendedReply]],[]⟩,hdrCmd.cmd.take ((hdrCmd.size + 254) % 256),32,
          fun traffic h => ?_⟩
        rw [loopRound,hquiet]
        refine mem_andThen_right rfl (mem_andThen_right ?_ (mem_andThen_left (mem_andThen_left ?_)))
        · rw [keepAliveStart,hkind,hfound]
          rfl
        · rw [keepAliveSequence,hkind,hfound]
          exact h
      | diag68 =>
        have hnorm : ∃ hdrCmd, calculator.firstCommand CommandType.cmdNorm.code =
            some (some hdrCmd) := by
          by_contra hmissing
          refine htalks (Or.inr ⟨hstart,?_⟩)
          rw [hkind]
          exact fun hdrCmd hfound => hmissing ⟨hdrCmd,hfound⟩
        obtain ⟨hdrCmd,hfound⟩ := hnorm
        refine ⟨⟨[],[],[⟨[extendedReply],[]⟩]⟩,hdrCmd.cmd.take hdrCmd.size,64,
          fun traffic h => ?_⟩
        rw [loopRound,hquiet]
        refine mem_andThen_right rfl (mem_andThen_right ?_ (mem_andThen_right rfl ?_))
        · rw [keepAliveStart,hkind]
          rfl
        · rw [diagSequence,hfound]
          refine mem_andThen_left ?_
          rw [hkind]
          exact h

end

/-- The communicator of a built sensor works on the first calculator. -/
theorem Built.comHandler {sensor : CANDiagSensor} (hbuilt : Built sensor) :
    sensor.calculators[0]? = some sensor.comHandler.calculator := by
  cases hbuilt with
  | one => rfl
  | two => rfl

/-- A calculator with a start command of two bytes. -/
def startOnly (addrDst addrSrc : UInt32) : CANDiagCalculator where
  dataPresence := true
  dataValidity := true
  calcHeader := ⟨canDiagHdrType,1,0x6A,500,addrDst,addrSrc,6,14,16⟩
  memory := [4,0,1,0,0,0,2,0x10,0xC0,0,0,0,0,0,0,0]

end Pyrn.Can
