import Pyrn.Device.WellFormedRecords

/-!
# Enumerating the commands

A caller asks for the first command of a type and then for the next one until there is none. Over
a list of commands with an end marker it gets exactly the commands of the type, in order.
-/

namespace Pyrn.Device

open Pyrn.Can CANDiagCalculator

/-- Commands as they lie in the storage, in front of an end marker. -/
def listed (commands : List Command) (more : List UInt8) : List UInt8 :=
  commands.flatMap Command.image ++ 0 :: 0 :: more

/-- The commands as a walk meets them, each with what lies behind its header. -/
def placed : List Command → List UInt8 → List CANDiagCommand
  | [], _ => []
  | command :: commands, more =>
      ⟨command.type.toNat,command.idCmd.toNat,command.cmd.length,
        command.cmd ++ listed commands more⟩ :: placed commands more

/-- The loop of a caller: the commands it gets from `hdrCmd` on, in at most `steps` rounds. -/
def commandsFrom (type : Nat) : Nat → Option CANDiagCommand → Option (List CANDiagCommand)
  | 0, _ => none
  | _ + 1, none => some []
  | steps + 1, some hdrCmd => do
      let next ← nextCommand hdrCmd type
      let rest ← commandsFrom type steps next
      return hdrCmd :: rest

/-- The commands that a caller gets by `FirstCommand` and `NextCommand`. -/
def commandsOf (calculator : CANDiagCalculator) (type steps : Nat) :
    Option (List CANDiagCommand) := do
  let first ← calculator.firstCommand type
  commandsFrom type steps first

section Walks

variable {more : List UInt8} {type : Nat}

theorem commandAt_listed (command : Command) (commands : List Command) (more : List UInt8) :
    commandAt (listed (command :: commands) more) =
      some ⟨command.type.toNat,command.idCmd.toNat,command.cmd.length,
        command.cmd ++ listed commands more⟩ := by
  rw [listed,List.flatMap_cons,List.append_assoc]
  exact commandAt_image command _

theorem length_le_listed (commands : List Command) (more : List UInt8) :
    commands.length < (listed commands more).length := by
  have hle := length_le_flatMap_image commands
  rw [listed,List.length_append,List.length_cons]
  omega

/-- The loop of `NextCommand` finds the first command of the type. -/
theorem nextFrom_listed (commands : List Command) (hmore : 5 ≤ more.length)
    (htype : type ≠ CommandType.cmdEnd.code) {rounds : Nat} (hrounds : commands.length < rounds) :
    nextFrom type rounds (listed commands more) =
      some ((placed commands more).find? fun command => command.type = type) := by
  induction commands generalizing rounds with
  | nil =>
    obtain ⟨rounds,rfl⟩ : ∃ k, rounds = k + 1 := ⟨rounds - 1,by omega⟩
    match more,hmore with
    | a :: b :: c :: d :: e :: rest,_ =>
      have hmarker : commandAt (listed [] (a :: b :: c :: d :: e :: rest)) =
          some ⟨CommandType.cmdEnd.code,LittleEndian.ofBytes [a,b,c,d],e.toNat,rest⟩ := rfl
      rw [nextFrom,hmarker]
      simp only [Option.bind_eq_bind,Option.bind_some]
      rw [if_neg (Ne.symm htype)]
      rfl
  | cons command commands ih =>
    obtain ⟨rounds,rfl⟩ : ∃ k, rounds = k + 1 := ⟨rounds - 1,by omega⟩
    have hend : command.type.toNat ≠ CommandType.cmdEnd.code :=
      fun hcode => command.type_ne (UInt16.toNat_inj.mp hcode)
    rw [nextFrom,commandAt_listed,placed]
    simp only [Option.bind_eq_bind,Option.bind_some]
    by_cases hhere : command.type.toNat = type
    · rw [if_pos hhere,List.find?_cons_of_pos (by simpa using hhere)]
      rfl
    · rw [if_neg hhere,if_neg hend,List.find?_cons_of_neg (by simpa using hhere),List.drop_left]
      exact ih (Nat.lt_of_succ_lt_succ hrounds)

/-- `NextCommand` on a command of the list goes on with the commands behind it. -/
theorem nextCommand_placed (command : Command) (commands : List Command)
    (hmore : 5 ≤ more.length) (htype : type ≠ CommandType.cmdEnd.code) :
    nextCommand ⟨command.type.toNat,command.idCmd.toNat,command.cmd.length,
        command.cmd ++ listed commands more⟩ type =
      some ((placed commands more).find? fun command => command.type = type) := by
  have hlength := length_le_listed commands more
  rw [nextCommand,List.drop_left]
  exact nextFrom_listed commands hmore htype (by rw [List.length_append]; omega)

theorem firstCommand_listed {calculator : CANDiagCalculator} {commands : List Command}
    (hsome : commands ≠ []) (hlist : calculator.memory = listed commands more)
    (hmore : 5 ≤ more.length) (htype : type ≠ CommandType.cmdEnd.code) :
    calculator.firstCommand type =
      some ((placed commands more).find? fun command => command.type = type) := by
  obtain ⟨command,commands,rfl⟩ := List.exists_cons_of_ne_nil hsome
  rw [firstCommand,hlist,commandAt_listed,placed]
  simp only [Option.bind_eq_bind,Option.bind_some]
  by_cases hhere : command.type.toNat = type
  · rw [if_pos hhere,List.find?_cons_of_pos (by simpa using hhere)]
    rfl
  · rw [if_neg hhere,List.find?_cons_of_neg (by simpa using hhere)]
    exact nextCommand_placed command commands hmore htype

/-- The loop of a caller gives the commands of the type, in one round each and one for the end. -/
theorem commandsFrom_listed (commands : List Command) (hmore : 5 ≤ more.length)
    (htype : type ≠ CommandType.cmdEnd.code) (steps : Nat) :
    commandsFrom type steps ((placed commands more).find? fun command => command.type = type) =
      if steps ≤ ((placed commands more).filter fun command => command.type = type).length then none
      else some ((placed commands more).filter fun command => command.type = type) := by
  induction commands generalizing steps with
  | nil => cases steps <;> rfl
  | cons command commands ih =>
    rw [placed]
    by_cases hhere : command.type.toNat = type
    · rw [List.find?_cons_of_pos (by simpa using hhere),
        List.filter_cons_of_pos (by simpa using hhere),List.length_cons]
      cases steps with
      | zero => rfl
      | succ steps =>
        rw [commandsFrom,nextCommand_placed command commands hmore htype]
        simp only [Option.bind_eq_bind,Option.bind_some,ih,Nat.add_le_add_iff_right]
        split_ifs <;> rfl
    · rw [List.find?_cons_of_neg (by simpa using hhere),
        List.filter_cons_of_neg (by simpa using hhere)]
      exact ih steps

/-- What the walk meets are the commands, in order. -/
theorem filter_placed (commands : List Command) (more : List UInt8) (type : UInt16) :
    ((placed commands more).filter fun command => command.type = type.toNat).map
        (fun command => (command.type,command.idCmd,command.cmd.take command.size)) =
      (commands.filter fun command => command.type = type).map fun command =>
        (command.type.toNat,command.idCmd.toNat,command.cmd) := by
  induction commands with
  | nil => rfl
  | cons command commands ih =>
    rw [placed,List.filter_cons,List.filter_cons]
    by_cases hhere : command.type = type
    · rw [if_pos (by simpa using congrArg UInt16.toNat hhere),if_pos (by simpa using hhere),
        List.map_cons,List.map_cons,ih,List.take_left]
    · have hother : command.type.toNat ≠ type.toNat :=
        fun heq => hhere (UInt16.toNat_inj.mp heq)
      rw [if_neg (by simpa using hother),if_neg (by simpa using hhere),ih]

end Walks

/-- Over one or more commands and an end marker whose header lies in the storage, a caller that
asks for a type gets exactly its commands, in order and each once where it lies, and needs one
round more than there are such commands. -/
theorem commandsOf_listed (calculator : CANDiagCalculator) (commands : List Command)
    (hsome : commands ≠ []) (more : List UInt8)
    (hlist : calculator.memory = listed commands more)
    (hstorage : canDiagCmdStorage ≤ calculator.memory.length)
    (hroom : (commands.flatMap Command.image).length + 7 ≤ canDiagCmdStorage) (type : UInt16)
    (htype : type ≠ 0) :
    let count := (commands.filter fun command => command.type = type).length
    let result := (placed commands more).filter fun command => command.type = type.toNat
    commandsOf calculator type.toNat (count + 1) = some result ∧
      (∀ steps ≤ count, commandsOf calculator type.toNat steps = none) ∧
      result.map (fun command => (command.type,command.idCmd,command.cmd.take command.size)) =
        (commands.filter fun command => command.type = type).map fun command =>
          (command.type.toNat,command.idCmd.toNat,command.cmd) := by
  intro count result
  have hcontent := filter_placed commands more type
  have hcount : result.length = count := by
    have hlengths := congrArg List.length hcontent
    rwa [List.length_map,List.length_map] at hlengths
  have hmore : 5 ≤ more.length := by
    rw [hlist,listed,List.length_append,List.length_cons,List.length_cons] at hstorage
    omega
  have hcode : type.toNat ≠ CommandType.cmdEnd.code :=
    fun hend => htype (UInt16.toNat_inj.mp hend)
  have hsteps (steps : Nat) : commandsOf calculator type.toNat steps =
      if steps ≤ count then none else some result := by
    rw [commandsOf,firstCommand_listed hsome hlist hmore hcode]
    simp only [Option.bind_eq_bind,Option.bind_some]
    rw [commandsFrom_listed commands hmore hcode,← hcount]
  refine ⟨?_,fun steps hle => ?_,hcontent⟩
  · rw [hsteps,if_neg (Nat.not_succ_le_self count)]
  · rw [hsteps,if_pos hle]

theorem cmdNorm_ne : (3 : UInt16) ≠ 0 := by decide

/-- Two keep-alive commands around a normal one. -/
def threeCommands : List Command :=
  [⟨2,1,[0x3E],by decide,by decide⟩,⟨3,2,[0x21,1],cmdNorm_ne,by decide⟩,
    ⟨2,3,[],by decide,by decide⟩]

def threeListed : CANDiagCalculator :=
  ⟨true,true,⟨1,0,0x6A,0,0,0,0,0,26⟩,listed threeCommands (List.replicate canDiagCmdStorage 0)⟩

theorem commandsOf_threeListed :
    commandsOf threeListed (2 : UInt16).toNat 3 =
      some ((placed threeCommands (List.replicate canDiagCmdStorage 0)).filter
        fun command => command.type = (2 : UInt16).toNat) :=
  (commandsOf_listed threeListed threeCommands (List.cons_ne_nil _ _) _ rfl
    (by decide +kernel) (by decide) 2 (by decide)).1

end Pyrn.Device
