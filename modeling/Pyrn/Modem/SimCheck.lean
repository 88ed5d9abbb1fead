import Mathlib.Logic.Function.Iterate
import Mathlib.Tactic.SplitIfs
import Pyrn.Framework.DoWhile

/-!
# The SIM check of the modems

`PyrnUSBModem::init` and `uBloxUSBModem::init` ask for the state of the SIM until it is ready.
The result they test is written only when the modem answers.
-/

namespace Pyrn.Modem

/-- `CPINProcessor::PIN_STATUS`. -/
inductive PinStatus
  | none
  | simPin
  | simPuk
  | ready
  deriving DecidableEq, Repr

/-- `CPINProcessor::onNewATResponseLine`. -/
def onNewATResponseLine (status : PinStatus) (line : List Char) : PinStatus :=
  if "+CPIN: READY".toList.isPrefixOf line then .ready
  else if "+CPIN: SIM PIN".toList.isPrefixOf line then .simPin
  else if "+CPIN: SIM PUK".toList.isPrefixOf line then .simPuk
  else status

inductive ResultKind
  | atOk
  | atError
  | atConnect
  | atCmsError
  | atCmeError
  deriving DecidableEq, Repr

/-- `ATCommandsInterface::ATResult`. -/
structure AtResult where
  result : ResultKind
  code : Int
  deriving DecidableEq, Repr

/-- The lines that end a command; an error may come without a number that can be scanned. -/
inductive ResultLine
  | ok
  | error
  | connect
  | commandNotSupport
  | cmeError (code : Option Int)
  | cmsError (code : Option Int)
  deriving DecidableEq, Repr

/-- What `processReadLine` stores in `m_transactionResult`. -/
def processReadLine (transaction : AtResult) : ResultLine → AtResult
  | .ok => ⟨.atOk,0⟩
  | .error => ⟨.atError,0⟩
  | .connect => ⟨.atConnect,0⟩
  | .commandNotSupport => ⟨.atError,0⟩
  | .cmeError code => ⟨.atCmeError,code.getD transaction.code⟩
  | .cmsError code => ⟨.atCmsError,code.getD transaction.code⟩

/-- What becomes of a command: the modem answers, or the time is over. A result that comes too
late is stored, and its message is discarded in front of the next command. -/
inductive Outcome
  | answer (lines : List (List Char)) (result : ResultLine)
  | timeout (late : Option ResultLine)
  deriving DecidableEq, Repr

inductive ReturnCode
  | ok
  | netTimeout
  | netMoreInfo
  deriving DecidableEq, Repr

def atResultToReturnCode (result : AtResult) : ReturnCode :=
  if result.result = .atOk then .ok else .netMoreInfo

/-- `m_transactionResult` behind a command. -/
def transactionResult (transaction : AtResult) : Outcome → AtResult
  | .answer _ line => processReadLine transaction line
  | .timeout (some line) => processReadLine transaction line
  | .timeout none => transaction

/-- The return code of `execute`. -/
def executeReturn (transaction : AtResult) : Outcome → ReturnCode
  | .answer _ line => atResultToReturnCode (processReadLine transaction line)
  | .timeout _ => .netTimeout

/-- `*pResult` behind `execute`. -/
def executeResult (transaction result : AtResult) : Outcome → AtResult
  | .answer _ line => processReadLine transaction line
  | .timeout _ => result

/-- What a `CPINProcessor` made for the command has found. -/
def getStatus : Outcome → PinStatus
  | .answer lines _ => lines.foldl onNewATResponseLine .none
  | .timeout _ => .none

inductive UsbModem
  | pyrn
  | uBlox
  deriving DecidableEq, Repr

/-- The SIM loop between two iterations. -/
structure SimState where
  /-- The commands that have been executed. -/
  commands : Nat
  /-- `m_transactionResult` of the interface. -/
  transaction : AtResult
  result : AtResult
  retries : Nat
  simReady : Bool
  /-- The return codes of the submissions of the PIN. -/
  submissions : List ReturnCode
  deriving DecidableEq, Repr

namespace SimState

variable (outcomes : Nat → Outcome) (s : SimState)

/-- The state behind `AT+CPIN?`. -/
def queried : SimState :=
  { s with
    commands := s.commands + 1
    transaction := transactionResult s.transaction (outcomes s.commands)
    result := executeResult s.transaction s.result (outcomes s.commands) }

/-- The state behind `AT+CPIN="0000"`, which is executed without a result. -/
def submitted : SimState :=
  { s with
    commands := s.commands + 1
    transaction := transactionResult s.transaction (outcomes s.commands)
    submissions := s.submissions ++ [executeReturn s.transaction (outcomes s.commands)] }

/-- `retries--; } while(retries);` -/
def counted : DoWhile.Step SimState :=
  if s.retries - 1 ≠ 0 then .again { s with retries := s.retries - 1 }
  else .done { s with retries := s.retries - 1 }

end SimState

/-- One iteration of the SIM loop. -/
def simStep (modem : UsbModem) (outcomes : Nat → Outcome) (s : SimState) :
    DoWhile.Step SimState :=
  if (s.queried outcomes).result.code = 14 then
    { s.queried outcomes with retries := s.retries + 1 }.counted
  else if executeReturn s.transaction (outcomes s.commands) = .ok then
    match getStatus (outcomes s.commands) with
    | .ready => .done { s.queried outcomes with simReady := true }
    | .simPin =>
        match modem with
        | .pyrn =>
            let submission := executeReturn (s.queried outcomes).transaction
              (outcomes (s.commands + 1))
            if submission ≠ .ok then .done ((s.queried outcomes).submitted outcomes)
            else ((s.queried outcomes).submitted outcomes).counted
        | .uBlox => .done (s.queried outcomes)
    | .simPuk => .done (s.queried outcomes)
    | .none => .done (s.queried outcomes)
  else .done (s.queried outcomes)

/-- The state in front of the loop; `result` is not initialised. -/
def SimState.start (transaction result : AtResult) : SimState :=
  ⟨0,transaction,result,3,false,[]⟩


variable {modem : UsbModem} {outcomes : Nat → Outcome} {s t : SimState}

/-- While the SIM is busy, what is counted up is counted down again. -/
theorem simStep_busy (hretries : 0 < s.retries) (hcode : (s.queried outcomes).result.code = 14) :
    simStep modem outcomes s = .again (s.queried outcomes) := by
  have hsame : s.retries + 1 - 1 ≠ 0 := by omega
  rw [simStep.eq_def,if_pos hcode,SimState.counted,if_pos hsame]
  rfl

/-- The loop goes on when the SIM is busy, and when the PIN has been taken. -/
theorem simStep_again (hretries : 0 < s.retries) (h : simStep modem outcomes s = .again t) :
    (t = s.queried outcomes ∧ (s.queried outcomes).result.code = 14) ∨
      (t.retries + 1 = s.retries ∧ 0 < t.retries ∧ t.submissions = s.submissions ++ [.ok]) := by
  by_cases hcode : (s.queried outcomes).result.code = 14
  · rw [simStep_busy hretries hcode] at h
    injection h with h
    exact .inl ⟨h.symm,hcode⟩
  · rw [simStep.eq_def,if_neg hcode] at h
    split_ifs at h with hret
    split at h
    · cases h
    · cases modem with
      | uBlox => cases h
      | pyrn =>
        simp only [ne_eq,ite_not] at h
        split_ifs at h with hok
        rw [SimState.counted] at h
        split_ifs at h with hleft
        injection h with h
        subst h
        refine .inr ⟨?_,Nat.pos_of_ne_zero hleft,?_⟩
        · exact Nat.sub_add_cancel hretries
        · exact congrArg (fun ret => s.submissions ++ [ret]) hok
    · cases h
    · cases h

/-- The last iteration submits the PIN at most once. -/
theorem simStep_done (hretries : 0 < s.retries) (h : simStep modem outcomes s = .done t) :
    t.submissions = s.submissions ∨ ∃ ret, t.submissions = s.submissions ++ [ret] := by
  by_cases hcode : (s.queried outcomes).result.code = 14
  · rw [simStep_busy hretries hcode] at h
    cases h
  · rw [simStep.eq_def,if_neg hcode] at h
    split_ifs at h with hret
    · split at h
      · injection h with h
        exact .inl (h ▸ rfl)
      · cases modem with
        | uBlox =>
          injection h with h
          exact .inl (h ▸ rfl)
        | pyrn =>
          refine .inr ⟨executeReturn (s.queried outcomes).transaction
            (outcomes (s.commands + 1)),?_⟩
          simp only [ne_eq,ite_not] at h
          split_ifs at h with hok
          · rw [SimState.counted] at h
            split_ifs at h with hleft
            injection h with h
            subst h
            rfl
          · injection h with h
            subst h
            rfl
      · injection h with h
        exact .inl (h ▸ rfl)
      · injection h with h
        exact .inl (h ▸ rfl)
    · injection h with h
      exact .inl (h ▸ rfl)

/-- What has been submitted in front of an iteration: the PIN was taken each time. -/
def PinTaken (s : SimState) : Prop :=
  s.submissions.length + s.retries ≤ 3 ∧ 0 < s.retries ∧ ∀ ret ∈ s.submissions, ret = .ok

theorem pinTaken_step (hs : PinTaken s) (h : simStep modem outcomes s = .again t) :
    PinTaken t := by
  obtain ⟨hcount,hretries,htaken⟩ := hs
  rcases simStep_again hretries h with ⟨rfl,-⟩ | ⟨hlower,hleft,hsubmissions⟩
  · exact ⟨hcount,hretries,htaken⟩
  · rw [PinTaken,hsubmissions]
    refine ⟨?_,hleft,?_⟩
    · rw [List.length_append,List.length_singleton]
      omega
    · intro ret hmem
      rcases List.mem_append.mp hmem with hmem | hmem
      · exact htaken ret hmem
      · exact List.mem_singleton.mp hmem

/-- The PIN is submitted three times at most, and nothing follows a failed submission. -/
def PinSafe (s : SimState) : Prop :=
  s.submissions.length ≤ 3 ∧ ∀ ret ∈ s.submissions.dropLast, ret = .ok

theorem PinTaken.safe (h : PinTaken s) : PinSafe s := by
  obtain ⟨hcount,-,htaken⟩ := h
  refine ⟨by omega,?_⟩
  intro ret hmem
  exact htaken ret (List.dropLast_subset _ hmem)

theorem PinTaken.safe_done (h : PinTaken s) (hdone : simStep modem outcomes s = .done t) :
    PinSafe t := by
  rcases simStep_done h.2.1 hdone with hsame | ⟨ret,hlast⟩
  · have hsafe := h.safe
    rw [PinSafe,hsame]
    exact hsafe
  · obtain ⟨hcount,hretries,htaken⟩ := h
    rw [PinSafe,hlast,List.length_append,List.length_singleton,List.dropLast_concat]
    exact ⟨by omega,htaken⟩

theorem pinTaken_of_reaches {transaction result : AtResult}
    (h : DoWhile.Reaches (simStep modem outcomes) (.start transaction result) s) :
    PinTaken s := by
  have hstart : PinTaken (.start transaction result) := by
    refine ⟨Nat.le_refl 3,Nat.zero_lt_succ 2,fun ret hmem => ?_⟩
    cases hmem
  exact h.invariant (fun _ _ => pinTaken_step) hstart

theorem pinSafe_of_visits {transaction result : AtResult}
    (h : DoWhile.Visits (simStep modem outcomes) (.start transaction result) s) : PinSafe s := by
  rcases h with h | ⟨last,h,hdone⟩
  · exact (pinTaken_of_reaches h).safe
  · exact (pinTaken_of_reaches h).safe_done hdone

/-- An outcome other than `+CME ERROR: 14` behind which a code of 14 is still there: the modem is
silent, or it answers with an error that has no number of its own or belongs to a message. -/
def Unheard (transaction : AtResult) : Outcome → Prop
  | .timeout _ => True
  | .answer _ (.cmeError none) => transaction.code = 14
  | .answer _ (.cmsError code) => code.getD transaction.code = 14
  | .answer _ _ => False

/-- The modem is asked with a code of 14 left from earlier, and nothing but queries follow that
leave it there. -/
def Stale (outcomes : Nat → Outcome) (s : SimState) : Prop :=
  s.result.code = 14 ∧ ∀ n, Unheard (((SimState.queried outcomes)^[n] s).transaction)
    (outcomes ((SimState.queried outcomes)^[n] s).commands)

/-- `+CME ERROR: 14` is answered only finitely often. -/
def FinitelyBusy (outcomes : Nat → Outcome) : Prop :=
  ∃ bound, ∀ i, bound ≤ i → ∀ lines, outcomes i ≠ .answer lines (.cmeError (some 14))

theorem queried_code (hcode : s.result.code = 14) : (s.queried outcomes).result.code = 14 ↔
    Unheard s.transaction (outcomes s.commands) ∨
      ∃ lines, outcomes s.commands = .answer lines (.cmeError (some 14)) := by
  rw [SimState.queried]
  cases outcomes s.commands with
  | timeout late => exact iff_of_true hcode (.inl trivial)
  | answer lines line =>
    cases line with
    | cmeError code =>
      cases code with
      | none => simp [executeResult,processReadLine,Unheard]
      | some code => simp [executeResult,processReadLine,Unheard]
    | cmsError code => simp [executeResult,processReadLine,Unheard]
    | _ => simp [executeResult,processReadLine,Unheard]

theorem Stale.queried (h : Stale outcomes s) : Stale outcomes (s.queried outcomes) := by
  obtain ⟨hcode,hunheard⟩ := h
  refine ⟨(queried_code hcode).mpr (.inl (hunheard 0)),fun n => ?_⟩
  exact hunheard (n + 1)

/-- With a stale code the loop goes on for ever. -/
theorem Stale.not_ends (h : Stale outcomes s) (hretries : 0 < s.retries) :
    ¬DoWhile.Ends (simStep modem outcomes) s := by
  refine DoWhile.not_ends (I := fun s => 0 < s.retries ∧ Stale outcomes s) ?_ ⟨hretries,h⟩
  rintro s ⟨hretries,hstale⟩
  exact ⟨s.queried outcomes,simStep_busy hretries hstale.queried.1,hretries,hstale.queried⟩

theorem queried_commands (n : Nat) (s : SimState) :
    ((SimState.queried outcomes)^[n] s).commands = s.commands + n := by
  induction n generalizing s with
  | zero => rfl
  | succ n ih =>
    rw [Function.iterate_succ_apply,ih]
    exact Nat.add_right_comm s.commands 1 n

/-- A loop that goes on without counting down does nothing but ask a busy SIM. -/
theorem idles_queried (hretries : 0 < s.retries)
    (h : DoWhile.Idles (simStep modem outcomes) SimState.retries s) :
    DoWhile.Idles (simStep modem outcomes) SimState.retries (s.queried outcomes) ∧
      (s.queried outcomes).result.code = 14 := by
  obtain ⟨t,hbody,hsame,hidles⟩ := h.again
  rcases simStep_again hretries hbody with ⟨rfl,hcode⟩ | ⟨hlower,-,-⟩
  · exact ⟨hidles,hcode⟩
  · omega

theorem idles_iterate (hretries : 0 < s.retries)
    (h : DoWhile.Idles (simStep modem outcomes) SimState.retries s) (n : Nat) :
    DoWhile.Idles (simStep modem outcomes) SimState.retries ((SimState.queried outcomes)^[n] s) ∧
      DoWhile.Reaches (simStep modem outcomes) s ((SimState.queried outcomes)^[n] s) ∧
      0 < ((SimState.queried outcomes)^[n] s).retries := by
  induction n with
  | zero => exact ⟨h,.refl _ s,hretries⟩
  | succ n ih =>
    obtain ⟨hidles,hreaches,hleft⟩ := ih
    obtain ⟨hnext,hcode⟩ := idles_queried hleft hidles
    rw [Function.iterate_succ_apply']
    exact ⟨hnext,hreaches.trans (.of_again (simStep_busy hleft hcode)),hleft⟩

/-- When the busy answers are over, a loop that idles does so with a stale code. -/
theorem stale_of_idles (hfinite : FinitelyBusy outcomes) (hretries : 0 < s.retries)
    (h : DoWhile.Idles (simStep modem outcomes) SimState.retries s) :
    ∃ t, DoWhile.Reaches (simStep modem outcomes) s t ∧ Stale outcomes t := by
  obtain ⟨bound,hbound⟩ := hfinite
  have hcode (n : Nat) : ((SimState.queried outcomes)^[n + 1] s).result.code = 14 := by
    obtain ⟨hidles,-,hleft⟩ := idles_iterate hretries h n
    rw [Function.iterate_succ_apply']
    exact (idles_queried hleft hidles).2
  refine ⟨_,(idles_iterate hretries h (bound + 1)).2.1,hcode bound,fun n => ?_⟩
  rw [← Function.iterate_add_apply]
  have hlast := hcode (n + bound)
  have hnext := hcode (n + bound + 1)
  rw [Function.iterate_succ_apply',queried_code hlast] at hnext
  rcases hnext with hunheard | ⟨lines,hbusy⟩
  · exact hunheard
  · refine absurd hbusy (hbound _ ?_ lines)
    rw [queried_commands]
    omega

/-- The measure of the loop. -/
theorem retries_le (hretries : 0 < s.retries) (h : simStep modem outcomes s = .again t) :
    t.retries ≤ s.retries := by
  rcases simStep_again hretries h with ⟨rfl,-⟩ | ⟨hlower,-,-⟩
  · exact Nat.le_refl _
  · omega

/-- When the busy answers are over some time, the loop ends, with the PIN submitted three times
at most and never behind a failed submission, exactly when it does not ask with a stale code. -/
theorem simCheck_exact (modem : UsbModem) (hfinite : FinitelyBusy outcomes)
    (transaction result : AtResult) :
    (DoWhile.Ends (simStep modem outcomes) (.start transaction result) ∧
      ∀ s, DoWhile.Visits (simStep modem outcomes) (.start transaction result) s → PinSafe s) ↔
      ∀ s, DoWhile.Reaches (simStep modem outcomes) (.start transaction result) s →
        ¬Stale outcomes s := by
  constructor
  · rintro ⟨hends,-⟩ s hreaches hstale
    exact hstale.not_ends (pinTaken_of_reaches hreaches).2.1 (hreaches.ends_iff.mp hends)
  · intro hfresh
    refine ⟨?_,fun s => pinSafe_of_visits⟩
    have hmono (s t : SimState)
        (hreaches : DoWhile.Reaches (simStep modem outcomes) (.start transaction result) s)
        (hbody : simStep modem outcomes s = .again t) : t.retries ≤ s.retries :=
      retries_le (pinTaken_of_reaches hreaches).2.1 hbody
    rcases DoWhile.ends_or_idles hmono with hends | ⟨s,hreaches,hidles⟩
    · exact hends
    · have hretries := (pinTaken_of_reaches hreaches).2.1
      obtain ⟨t,ht,hstale⟩ := stale_of_idles hfinite hretries hidles
      exact absurd hstale (hfresh t (hreaches.trans ht))

/-- A modem that asks for the PIN once, takes it and is ready. -/
def readyModem : Nat → Outcome
  | 0 => .answer ["+CPIN: SIM PIN".toList] .ok
  | _ => .answer ["+CPIN: READY".toList] .ok

theorem simCheck_exact_example :
    DoWhile.Ends (simStep .pyrn readyModem) (.start ⟨.atOk,0⟩ ⟨.atOk,0⟩) ∧
      ∀ s, DoWhile.Visits (simStep .pyrn readyModem) (.start ⟨.atOk,0⟩ ⟨.atOk,0⟩) s →
        PinSafe s := by
  refine (simCheck_exact .pyrn ⟨0,fun i _ lines hbusy => ?_⟩ ⟨.atOk,0⟩ ⟨.atOk,0⟩).mpr ?_
  · cases i <;> cases hbusy
  · rintro s - ⟨-,hunheard⟩
    have hfirst := hunheard 0
    cases hcommands : ((SimState.queried readyModem)^[0] s).commands <;>
      rw [hcommands] at hfirst <;> exact hfirst

/-- A modem that finds the SIM busy and does not answer any more. -/
def silentModem : Nat → Outcome
  | 0 => .answer [] (.cmeError (some 14))
  | _ => .timeout none

/-- The code of the only answer keeps the loops of both modems alive. -/
theorem simCheck_silent : FinitelyBusy silentModem ∧ ∀ modem,
    ¬DoWhile.Ends (simStep modem silentModem) (.start ⟨.atOk,0⟩ ⟨.atOk,0⟩) := by
  have hlater : ∀ i, 0 < i → silentModem i = .timeout none
    | _ + 1, _ => rfl
  constructor
  · refine ⟨1,fun i hi lines hbusy => ?_⟩
    rw [hlater i hi] at hbusy
    cases hbusy
  · intro modem hends
    let start : SimState := .start ⟨.atOk,0⟩ ⟨.atOk,0⟩
    have hretries : 0 < start.retries := Nat.zero_lt_succ 2
    have hstale : Stale silentModem (start.queried silentModem) := by
      refine ⟨rfl,fun n => ?_⟩
      have hasked : 0 < (start.queried silentModem).commands := Nat.zero_lt_one
      rw [queried_commands,hlater _ (Nat.add_pos_left hasked n)]
      trivial
    have hfirst : DoWhile.Reaches (simStep modem silentModem) start (start.queried silentModem) :=
      .of_again (simStep_busy hretries hstale.1)
    exact hstale.not_ends hretries (hfirst.ends_iff.mp hends)

end Pyrn.Modem
