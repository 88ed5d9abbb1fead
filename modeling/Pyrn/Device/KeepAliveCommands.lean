import Pyrn.Device.CommandEnumeration
import Pyrn.Framework.Run

/-!
# The commands that the loop of a sensor uses

The start command and the normal commands are looked for and used when they are there. The
keep-alive command is used without asking: its last two bytes are the period of the timer, and
the ones before them are sent.
-/

namespace Pyrn.Device

open Pyrn.Can CANDiagCalculator Transition

/-- A ready calculator with one or more commands and an end marker inside its list, and memory
behind it for the header of the marker. -/
structure ListedCalculator where
  calculator : CANDiagCalculator
  commands : List Command
  more : List UInt8
  ready : calculator.ready = true
  memory : calculator.memory = listed commands more
  nonempty : commands ≠ []
  inside : (commands.flatMap Command.image).length + 2 ≤ calculator.calcHeader.cmdLen.toNat
  header : 5 ≤ more.length

/-- Where the thread of a sensor stands in `Loop`; in `DiagSequence` with its command. -/
inductive LoopPlace
  | test
  | diagStart
  | keepAliveStart
  | diagSequence
  | sequenceLoop (hdrCmd : Option CANDiagCommand)
  | keepAliveStop
  | diagStop
  deriving DecidableEq, Repr

structure LoopRun where
  i : Nat
  place : LoopPlace
  calcIndex : Nat
  timerRunning : Bool
  deriving DecidableEq, Repr

/-- A step of the thread, which finds `running` set or not, or a tick of the timer. -/
inductive LoopInput
  | thread (running : Bool)
  | tick
  deriving DecidableEq, Repr

/-- `KeepAliveStart` reads the period behind a pointer to a command, which may be `NULL`; the
others pass a length of the data of a command to `ExecuteCommand`. -/
inductive CommandUse
  | period (hdrCmd : Option CANDiagCommand)
  | execute (hdrCmd : CANDiagCommand) (len : Nat)
  deriving DecidableEq, Repr

/-- The period lies inside the data of a keep-alive command, and what is executed is not longer
than the data of its command. -/
def CommandUse.Allowed : CommandUse → Prop
  | .period none => False
  | .period (some hdrCmd) => hdrCmd.type = CommandType.cmdKeepAlive.code ∧ 2 ≤ hdrCmd.size
  | .execute hdrCmd len => len ≤ hdrCmd.size

/-- `Loop` of `CANDiagSensor6A` and its keep-alive timer; `Main` calls `Loop` again. `none` is a
read outside the calculators or their memory. -/
def loopStep (calculators : List CANDiagCalculator) (st : LoopRun) :
    LoopInput → Option (List CommandUse × LoopRun)
  | .thread running =>
      match st.place with
      | .test =>
          if st.i < calculators.length then some ([],{ st with place := .diagStart })
          else some ([],{ st with i := 0 })
      | .diagStart => do
          let calculator ← calculators[st.i]?
          let hdrCmd ← calculator.firstCommand CommandType.cmdDiagStart.code
          return (hdrCmd.toList.map fun command => .execute command command.size,
            { st with place := .keepAliveStart })
      | .keepAliveStart => do
          let calculator ← calculators[st.i]?
          let hdrCmd ← calculator.firstCommand CommandType.cmdKeepAlive.code
          return ([.period hdrCmd],
            { st with place := .diagSequence, calcIndex := st.i, timerRunning := true })
      | .diagSequence => do
          let calculator ← calculators[st.i]?
          let hdrCmd ← calculator.firstCommand CommandType.cmdNorm.code
          return ([],{ st with place := .sequenceLoop hdrCmd })
      | .sequenceLoop none => some ([],{ st with place := .keepAliveStop })
      | .sequenceLoop (some hdrCmd) =>
          if running = true then do
            let next ← nextCommand hdrCmd CommandType.cmdNorm.code
            return ([.execute hdrCmd hdrCmd.size],{ st with place := .sequenceLoop next })
          else some ([],{ st with place := .keepAliveStop })
      | .keepAliveStop => some ([],{ st with place := .diagStop, timerRunning := false })
      | .diagStop => some ([],{ st with place := .test, i := st.i + 1 })
  | .tick =>
      -- `KeepAliveSequence(CalcIndex)`; the length is a `uint8_t`
      if st.timerRunning = true then do
        let calculator ← calculators[st.calcIndex]?
        let hdrCmd ← calculator.firstCommand CommandType.cmdKeepAlive.code
        return (hdrCmd.toList.map fun command => .execute command ((command.size + 254) % 256),st)
      else some ([],st)

/-- Every run of the loop goes on, and all its uses of commands are allowed. -/
def LoopSafe (calculators : List CANDiagCalculator) (st : LoopRun) : Prop :=
  ∀ inputs, ∃ uses last, run (loopStep calculators) st inputs = some (uses,last) ∧
    ∀ use ∈ uses.flatten, use.Allowed

/-- There is a keep-alive command, and the first one has two bytes or more. -/
def KeepAliveOk (commands : List Command) : Prop :=
  ∃ command, (commands.find? fun command => command.type = 2) = some command ∧
    2 ≤ command.cmd.length

section Placed

variable {commands : List Command} {more : List UInt8}

theorem nextCommand_mem {type : Nat} (hmore : 5 ≤ more.length)
    (htype : type ≠ CommandType.cmdEnd.code) {hdrCmd : CANDiagCommand}
    (hmem : hdrCmd ∈ placed commands more) : ∃ next, nextCommand hdrCmd type = some next ∧
      ∀ command ∈ next, command ∈ placed commands more := by
  induction commands with
  | nil => cases hmem
  | cons command commands ih =>
    rw [placed] at hmem ⊢
    rcases List.mem_cons.mp hmem with rfl | hlater
    · refine ⟨_,nextCommand_placed command commands hmore htype,fun found hfound => ?_⟩
      exact List.mem_cons_of_mem _ (List.mem_of_find?_eq_some hfound)
    · obtain ⟨next,hnext,hall⟩ := ih hlater
      exact ⟨next,hnext,fun found hfound => List.mem_cons_of_mem _ (hall found hfound)⟩

/-- The keep-alive command that a walk finds is the first one of the list. -/
theorem keepAliveOk_iff : KeepAliveOk commands ↔
    ∃ hdrCmd, ((placed commands more).find? fun hdrCmd =>
      hdrCmd.type = CommandType.cmdKeepAlive.code) = some hdrCmd ∧ 2 ≤ hdrCmd.size := by
  induction commands with
  | nil => simp [KeepAliveOk,placed]
  | cons command commands ih =>
    rw [KeepAliveOk,placed]
    by_cases hhere : command.type = 2
    · have hcode : command.type.toNat = CommandType.cmdKeepAlive.code := by
        rw [hhere]
        rfl
      rw [List.find?_cons_of_pos (by simpa using hhere),
        List.find?_cons_of_pos (by simpa using hcode)]
      simp
    · have hcode : command.type.toNat ≠ CommandType.cmdKeepAlive.code :=
        fun heq => hhere (UInt16.toNat_inj.mp heq)
      rw [List.find?_cons_of_neg (by simpa using hhere),
        List.find?_cons_of_neg (by simpa using hcode),← ih,KeepAliveOk]

end Placed

section Loop

variable {sensor : List ListedCalculator} {st : LoopRun}

def calculatorsOf (sensor : List ListedCalculator) : List CANDiagCalculator :=
  sensor.map ListedCalculator.calculator

/-- What holds in every state that the loop reaches. -/
structure LoopRun.Sound (sensor : List ListedCalculator) (st : LoopRun) : Prop where
  inRange : st.place ≠ .test → st.i < sensor.length
  timer : st.timerRunning = true → st.calcIndex < sensor.length
  placed : ∀ hdrCmd, st.place = .sequenceLoop (some hdrCmd) →
    ∃ listed, sensor[st.i]? = some listed ∧ hdrCmd ∈ placed listed.commands listed.more

theorem calculatorsOf_getElem? {i : Nat} (hi : i < sensor.length) :
    (calculatorsOf sensor)[i]? = some sensor[i].calculator := by
  rw [calculatorsOf,List.getElem?_map,List.getElem?_eq_getElem hi,Option.map_some]

/-- The first command of a type in the list. -/
def ListedCalculator.first (listed : ListedCalculator) (type : CommandType) :
    Option CANDiagCommand :=
  (placed listed.commands listed.more).find? fun hdrCmd => hdrCmd.type = type.code

theorem ListedCalculator.firstCommand (listed : ListedCalculator) {type : CommandType}
    (htype : type ≠ .cmdEnd) :
    listed.calculator.firstCommand type.code = some (listed.first type) := by
  apply firstCommand_listed listed.nonempty listed.memory listed.header
  cases type <;> simp_all [CommandType.code]

/-- `KeepAliveStart` may use the first keep-alive command exactly when it is there with its
period. -/
theorem period_allowed_iff (listed : ListedCalculator) :
    (CommandUse.period (listed.first .cmdKeepAlive)).Allowed ↔ KeepAliveOk listed.commands := by
  rw [@keepAliveOk_iff listed.commands listed.more,← ListedCalculator.first]
  cases hfind : listed.first .cmdKeepAlive with
  | none => simp [CommandUse.Allowed]
  | some hdrCmd =>
    have htype : hdrCmd.type = CommandType.cmdKeepAlive.code := by
      simpa using List.find?_some hfind
    simp [CommandUse.Allowed,htype]

/-- The uses of a command that may be missing. -/
def executes (hdrCmd : Option CANDiagCommand) (len : CANDiagCommand → Nat) : List CommandUse :=
  hdrCmd.toList.map fun command => .execute command (len command)

theorem executes_allowed {hdrCmd : Option CANDiagCommand} {len : CANDiagCommand → Nat}
    (hlen : ∀ command ∈ hdrCmd, len command ≤ command.size) :
    ∀ use ∈ executes hdrCmd len, use.Allowed := by
  cases hdrCmd with
  | none => exact nofun
  | some command => simpa [executes,CommandUse.Allowed] using hlen

variable {i calcIndex : Nat} {timerRunning : Bool} {place : LoopPlace}

theorem loopStep_diagStart (hi : i < sensor.length) (running : Bool) :
    loopStep (calculatorsOf sensor) ⟨i,.diagStart,calcIndex,timerRunning⟩ (.thread running) =
      some (executes (sensor[i].first .cmdDiagStart) CANDiagCommand.size,
        ⟨i,.keepAliveStart,calcIndex,timerRunning⟩) := by
  simp only [loopStep,calculatorsOf_getElem? hi,Option.bind_eq_bind,Option.bind_some,
    ListedCalculator.firstCommand _ (show CommandType.cmdDiagStart ≠ .cmdEnd by decide)]
  rfl

theorem loopStep_keepAliveStart (hi : i < sensor.length) (running : Bool) :
    loopStep (calculatorsOf sensor) ⟨i,.keepAliveStart,calcIndex,timerRunning⟩
        (.thread running) =
      some ([.period (sensor[i].first .cmdKeepAlive)],⟨i,.diagSequence,i,true⟩) := by
  simp only [loopStep,calculatorsOf_getElem? hi,Option.bind_eq_bind,Option.bind_some,
    ListedCalculator.firstCommand _ (show CommandType.cmdKeepAlive ≠ .cmdEnd by decide)]
  rfl

theorem loopStep_diagSequence (hi : i < sensor.length) (running : Bool) :
    loopStep (calculatorsOf sensor) ⟨i,.diagSequence,calcIndex,timerRunning⟩ (.thread running) =
      some ([],⟨i,.sequenceLoop (sensor[i].first .cmdNorm),calcIndex,timerRunning⟩) := by
  simp only [loopStep,calculatorsOf_getElem? hi,Option.bind_eq_bind,Option.bind_some,
    ListedCalculator.firstCommand _ (show CommandType.cmdNorm ≠ .cmdEnd by decide)]
  rfl

/-- A command of the sequence is executed, and the next one of the list follows. -/
theorem loopStep_sequenceLoop {listed : ListedCalculator} {hdrCmd : CANDiagCommand}
    (hmem : hdrCmd ∈ placed listed.commands listed.more) :
    ∃ next, (∀ command ∈ next, command ∈ placed listed.commands listed.more) ∧
      loopStep (calculatorsOf sensor) ⟨i,.sequenceLoop (some hdrCmd),calcIndex,timerRunning⟩
          (.thread true) =
        some (executes (some hdrCmd) CANDiagCommand.size,
          ⟨i,.sequenceLoop next,calcIndex,timerRunning⟩) := by
  obtain ⟨next,hnext,hall⟩ := nextCommand_mem listed.header
    (show CommandType.cmdNorm.code ≠ CommandType.cmdEnd.code by decide) hmem
  refine ⟨next,hall,?_⟩
  simp only [loopStep,if_true,hnext,Option.bind_eq_bind,Option.bind_some]
  rfl

theorem loopStep_tick (hindex : calcIndex < sensor.length) :
    loopStep (calculatorsOf sensor) ⟨i,place,calcIndex,true⟩ .tick =
      some (executes (sensor[calcIndex].first .cmdKeepAlive)
        fun command => (command.size + 254) % 256,⟨i,place,calcIndex,true⟩) := by
  simp only [loopStep,calculatorsOf_getElem? hindex,Option.bind_eq_bind,Option.bind_some,
    ListedCalculator.firstCommand _ (show CommandType.cmdKeepAlive ≠ .cmdEnd by decide)]
  rfl

/-- A tick of a running timer sends the first keep-alive command without its last two bytes. -/
theorem tick_allowed {listed : ListedCalculator} (hok : KeepAliveOk listed.commands) :
    ∀ use ∈ executes (listed.first .cmdKeepAlive) (fun command => (command.size + 254) % 256),
      use.Allowed := by
  obtain ⟨hdrCmd,hfind,hsize⟩ := (@keepAliveOk_iff listed.commands listed.more).mp hok
  apply executes_allowed
  intro command hcommand
  rw [ListedCalculator.first,hfind] at hcommand
  cases hcommand
  omega

/-- What a step of the thread or a tick does in a sound state. -/
theorem loopStep_sound (hst : st.Sound sensor) (input : LoopInput) : ∃ uses next,
    loopStep (calculatorsOf sensor) st input = some (uses,next) ∧ next.Sound sensor ∧
      ((∀ listed ∈ sensor, KeepAliveOk listed.commands) → ∀ use ∈ uses, use.Allowed) := by
  obtain ⟨i,place,calcIndex,timerRunning⟩ := st
  have htimer : timerRunning = true → calcIndex < sensor.length := hst.timer
  have hrange : place ≠ .test → i < sensor.length := hst.inRange
  cases input with
  | tick =>
    cases timerRunning with
    | false => exact ⟨[],_,rfl,hst,fun _ => nofun⟩
    | true =>
      have hindex := htimer rfl
      exact ⟨_,_,loopStep_tick hindex,hst,fun hok => tick_allowed (hok _ (List.getElem_mem _))⟩
  | thread running =>
    have hquiet {next : LoopRun} (hstep : loopStep (calculatorsOf sensor)
        ⟨i,place,calcIndex,timerRunning⟩ (.thread running) = some ([],next))
        (hnext : next.Sound sensor) : ∃ uses next, loopStep (calculatorsOf sensor)
          ⟨i,place,calcIndex,timerRunning⟩ (.thread running) = some (uses,next) ∧
          next.Sound sensor ∧
            ((∀ listed ∈ sensor, KeepAliveOk listed.commands) → ∀ use ∈ uses, use.Allowed) :=
      ⟨[],next,hstep,hnext,fun _ => nofun⟩
    cases place with
    | test =>
      by_cases hi : i < sensor.length
      · have hstep : loopStep (calculatorsOf sensor) ⟨i,.test,calcIndex,timerRunning⟩
            (.thread running) = some ([],⟨i,.diagStart,calcIndex,timerRunning⟩) := by
          simp [loopStep,calculatorsOf,hi]
        exact hquiet hstep ⟨fun _ => hi,htimer,nofun⟩
      · have hstep : loopStep (calculatorsOf sensor) ⟨i,.test,calcIndex,timerRunning⟩
            (.thread running) = some ([],⟨0,.test,calcIndex,timerRunning⟩) := by
          simp [loopStep,calculatorsOf,hi]
        exact hquiet hstep ⟨fun hmoved => absurd rfl hmoved,htimer,nofun⟩
    | diagStart =>
      have hi := hrange nofun
      exact ⟨_,_,loopStep_diagStart hi running,⟨fun _ => hi,htimer,nofun⟩,
        fun _ => executes_allowed fun _ _ => le_refl _⟩
    | keepAliveStart =>
      have hi := hrange nofun
      refine ⟨_,_,loopStep_keepAliveStart hi running,⟨fun _ => hi,fun _ => hi,nofun⟩,fun hok => ?_⟩
      simpa using (period_allowed_iff _).mpr (hok _ (List.getElem_mem hi))
    | diagSequence =>
      have hi := hrange nofun
      refine hquiet (loopStep_diagSequence hi running) ⟨fun _ => hi,htimer,fun hdrCmd hplace => ?_⟩
      have hfirst : sensor[i].first .cmdNorm = some hdrCmd := LoopPlace.sequenceLoop.inj hplace
      exact ⟨sensor[i],List.getElem?_eq_getElem hi,List.mem_of_find?_eq_some hfirst⟩
    | sequenceLoop hdrCmd =>
      have hi := hrange nofun
      have hstop : LoopRun.Sound sensor ⟨i,.keepAliveStop,calcIndex,timerRunning⟩ :=
        ⟨fun _ => hi,htimer,nofun⟩
      cases hdrCmd with
      | none => exact hquiet rfl hstop
      | some hdrCmd =>
        cases running with
        | false => exact hquiet rfl hstop
        | true =>
          obtain ⟨listed,hlisted,hmem⟩ := hst.placed hdrCmd rfl
          obtain ⟨next,hall,hstep⟩ := loopStep_sequenceLoop hmem
          refine ⟨_,_,hstep,⟨fun _ => hi,htimer,fun command hplace => ?_⟩,
            fun _ => executes_allowed fun _ _ => le_refl _⟩
          exact ⟨listed,hlisted,hall command (LoopPlace.sequenceLoop.inj hplace)⟩
    | keepAliveStop =>
      have hi := hrange nofun
      exact hquiet rfl ⟨fun _ => hi,nofun,nofun⟩
    | diagStop => exact hquiet rfl ⟨fun hmoved => absurd rfl hmoved,htimer,nofun⟩

/-- When every list has its keep-alive command, every run from a sound state is safe. -/
theorem loopSafe_of_sound (hok : ∀ listed ∈ sensor, KeepAliveOk listed.commands)
    (hst : st.Sound sensor) : LoopSafe (calculatorsOf sensor) st := by
  intro inputs
  induction inputs generalizing st with
  | nil => exact ⟨[],st,rfl,nofun⟩
  | cons input inputs ih =>
    obtain ⟨uses,next,hstep,hnext,hallowed⟩ := loopStep_sound hst input
    obtain ⟨rest,last,hrest,hall⟩ := ih hnext
    refine ⟨uses :: rest,last,(run_cons_eq_some_iff hstep).mpr ⟨rest,rfl,hrest⟩,?_⟩
    rw [List.flatten_cons,List.forall_mem_append]
    exact ⟨hallowed hok,hall⟩

/-- In a safe loop the uses of a step that can be reached are allowed. -/
theorem LoopSafe.reached {calculators : List CANDiagCalculator} (hsafe : LoopSafe calculators st)
    {reached next : LoopRun} (hreach : Reaches (loopStep calculators) st reached)
    {input : LoopInput} {uses : List CommandUse}
    (hstep : loopStep calculators reached input = some (uses,next)) :
    ∀ use ∈ uses, use.Allowed := by
  obtain ⟨inputs,outputs,hrun⟩ := hreach
  obtain ⟨all,last,hall,hallowed⟩ := hsafe (inputs ++ [input])
  rw [run_append,hrun,Option.bind_some,run,hstep] at hall
  cases hall
  intro use huse
  apply hallowed
  simp [huse]

/-- The loop reaches every calculator, when `running` is cleared as soon as it is asked for. -/
theorem reaches_keepAliveStart (calcIndex : Nat) {i : Nat} (hi : i < sensor.length) :
    ∃ index, Reaches (loopStep (calculatorsOf sensor)) ⟨0,.test,calcIndex,false⟩
      ⟨i,.keepAliveStart,index,false⟩ := by
  have hstart {i index : Nat} (hi : i < sensor.length)
      (htest : Reaches (loopStep (calculatorsOf sensor)) ⟨0,.test,calcIndex,false⟩
        ⟨i,.test,index,false⟩) :
      Reaches (loopStep (calculatorsOf sensor)) ⟨0,.test,calcIndex,false⟩
        ⟨i,.keepAliveStart,index,false⟩ := by
    have hfirst : loopStep (calculatorsOf sensor) ⟨i,.test,index,false⟩ (.thread false) =
        some ([],⟨i,.diagStart,index,false⟩) := by
      simp [loopStep,calculatorsOf,hi]
    exact (htest.step hfirst).step (loopStep_diagStart hi false)
  induction i with
  | zero => exact ⟨calcIndex,hstart hi (.refl _)⟩
  | succ i ih =>
    have hbefore : i < sensor.length := Nat.lt_of_succ_lt hi
    obtain ⟨index,hreach⟩ := ih hbefore
    have hsequence := (hreach.step (loopStep_keepAliveStart hbefore false)).step
      (loopStep_diagSequence hbefore false)
    have hstop : loopStep (calculatorsOf sensor)
        ⟨i,.sequenceLoop (sensor[i].first .cmdNorm),i,true⟩ (.thread false) =
          some ([],⟨i,.keepAliveStop,i,true⟩) := by
      cases hfirst : sensor[i].first .cmdNorm <;> rfl
    have hstopped : loopStep (calculatorsOf sensor) ⟨i,.keepAliveStop,i,true⟩ (.thread false) =
        some ([],⟨i,.diagStop,i,false⟩) := rfl
    have hnext : loopStep (calculatorsOf sensor) ⟨i,.diagStop,i,false⟩ (.thread false) =
        some ([],⟨i + 1,.test,i,false⟩) := rfl
    exact ⟨i,hstart hi (((hsequence.step hstop).step hstopped).step hnext)⟩

end Loop

/-- For every sensor whose calculators are ready and have well-formed lists, the loop with its
timer uses commands as it may, in every run, exactly when every list has a keep-alive command
and the first one has two bytes or more. -/
theorem loopSafe_iff (sensor : List ListedCalculator) (calcIndex : Nat) :
    LoopSafe (calculatorsOf sensor) ⟨0,.test,calcIndex,false⟩ ↔
      ∀ listed ∈ sensor, KeepAliveOk listed.commands := by
  constructor
  · intro hsafe listed hmem
    obtain ⟨i,hi,rfl⟩ := List.getElem_of_mem hmem
    obtain ⟨index,hreach⟩ := reaches_keepAliveStart calcIndex hi
    rw [← period_allowed_iff]
    exact hsafe.reached hreach (loopStep_keepAliveStart hi false) _
      (List.mem_singleton_self _)
  · intro hok
    exact loopSafe_of_sound hok ⟨fun hmoved => absurd rfl hmoved,nofun,nofun⟩

/-- A calculator with one normal command and no keep-alive command. -/
def onlyNormal : ListedCalculator where
  calculator := ⟨true,true,⟨1,0,0x6A,0,0,0,0,0,10⟩,
    listed [⟨3,1,[0x21],cmdNorm_ne,by decide⟩] (List.replicate canDiagCmdStorage 0)⟩
  commands := [⟨3,1,[0x21],cmdNorm_ne,by decide⟩]
  more := List.replicate canDiagCmdStorage 0
  ready := rfl
  memory := rfl
  nonempty := List.cons_ne_nil _ _
  inside := by decide
  header := by
    rw [List.length_replicate]
    decide

/-- `KeepAliveStart` reads the period behind `NULL`. -/
theorem onlyNormal_not_safe : ¬LoopSafe (calculatorsOf [onlyNormal]) ⟨0,.test,0,false⟩ := by
  intro hsafe
  obtain ⟨uses,last,hrun,hallowed⟩ := hsafe [.thread true,.thread true,.thread true]
  have huses : run (loopStep (calculatorsOf [onlyNormal])) ⟨0,.test,0,false⟩
      [.thread true,.thread true,.thread true] =
        some ([[],[],[.period none]],⟨0,.diagSequence,0,true⟩) := by
    decide +kernel
  cases hrun.symm.trans huses
  exact hallowed (.period none) (by decide)

end Pyrn.Device
