import Pyrn.Framework.Run
import Pyrn.Modem.Transaction

/-!
# Executing a command

`ATCommandsInterface::execute` and the processing thread talk through two mailboxes of one message
each. The steps of the two sides and the lines of the modem come in any order.
-/

namespace Pyrn.Modem

/-- What is sent to the processing thread: `AT_CMD_READY` and `AT_TIMEOUT`. -/
inductive Message
  | ready
  | timeout
  deriving DecidableEq, Repr

/-- A mailbox `Mail<int,1>`: its only message is free, in the queue, or taken and not freed. -/
inductive Mailbox
  | free
  | queued (message : Message)
  | taken (message : Message)
  deriving DecidableEq, Repr

def Mailbox.isTaken : Mailbox → Bool
  | taken _ => true
  | _ => false

/-- The message in the mailbox. -/
def Mailbox.message : Mailbox → Option Message
  | free => none
  | queued m => some m
  | taken m => some m

/-- Where the caller is in `execute`. -/
inductive Caller
  | idle
  /-- The previous result is discarded. -/
  | discarded
  | commandSet
  /-- Behind `AT_CMD_READY`, at `m_AT2Env.get(timeout)`. -/
  | waiting
  | timedOut
  deriving DecidableEq, Repr

/-- The AT interface; `posting` is the processing thread at `m_AT2Env.alloc`, with a result. -/
structure Session where
  caller : Caller
  env2AT : Mailbox
  /-- Whether `m_AT2Env` holds a message. -/
  at2Env : Bool
  posting : Bool
  transaction : Transaction
  deriving DecidableEq, Repr

inductive Action
  /-- Lock the transaction mutex and discard a result that came too late. -/
  | discard
  | setCommand (command : List Char)
  | postReady
  /-- Take the result and return it. -/
  | getResult
  | timeout
  | postTimeout
  /-- The thread processes a line of the modem. -/
  | line (text : List Char)
  | postResult
  /-- `trySendCommand`: take the message, and act on it. -/
  | take
  | act
  deriving DecidableEq, Repr

inductive Observation
  | discarded
  | issued (command : List Char)
  | sent (command : List Char)
  | echoed
  | stored (result : AtResult)
  | returned (result : AtResult)
  | timedOut
  deriving DecidableEq, Repr

namespace Session

/-- What a line does to the thread. -/
def onLine (handled : List Char → Bool) (behind : Option Int) (s : Session) (text : List Char) :
    List Observation × Session :=
  match s.transaction.processReadLine handled behind text with
  | (.echo,t) => ([.echoed],{ s with transaction := t })
  | (.result,t) => ([.stored t.result],{ s with transaction := t,posting := true })
  | (_,t) => ([],{ s with transaction := t })

/-- What `trySendCommand` does with a message. -/
def onMessage (s : Session) : Message → List Observation × Session
  | .ready => ([.sent s.transaction.command],
      { s with env2AT := .free,transaction.state := .commandSent })
  | .timeout => ([],{ s with env2AT := .free,transaction.state := .idle })

/-- A step of one of the sides; it is `none` where that side has to wait. -/
def step (handled : List Char → Bool) (behind : Option Int) (s : Session) :
    Action → Option (List Observation × Session)
  | .discard =>
      if s.caller = .idle then
        some ([.discarded],{ s with caller := .discarded,at2Env := false })
      else none
  | .setCommand command =>
      if s.caller = .discarded then
        some ([.issued command],
          { s with caller := .commandSet,transaction.command := command })
      else none
  | .postReady =>
      if s.caller = .commandSet ∧ s.env2AT = .free then
        some ([],{ s with caller := .waiting,env2AT := .queued .ready })
      else none
  | .getResult =>
      if s.caller = .waiting ∧ s.at2Env = true then
        some ([.returned s.transaction.result],{ s with caller := .idle,at2Env := false })
      else none
  | .timeout =>
      if s.caller = .waiting ∧ s.at2Env = false then
        some ([.timedOut],{ s with caller := .timedOut })
      else none
  | .postTimeout =>
      if s.caller = .timedOut ∧ s.env2AT = .free then
        some ([],{ s with caller := .idle,env2AT := .queued .timeout })
      else none
  | .line text =>
      if s.posting = false ∧ s.env2AT.isTaken = false then some (s.onLine handled behind text)
      else none
  | .postResult =>
      if s.posting = true ∧ s.at2Env = false then
        some ([],{ s with posting := false,at2Env := true })
      else none
  | .take =>
      match s.env2AT with
      | .queued m =>
          if s.posting = false then some ([],{ s with env2AT := .taken m }) else none
      | _ => none
  | .act =>
      match s.env2AT with
      | .taken m => some (s.onMessage m)
      | _ => none

/-- The interface behind its constructor. -/
def start (result : AtResult) : Session := ⟨.idle,.free,false,false,⟨.idle,[],result⟩⟩

variable {handled : List Char → Bool} {behind : Option Int} {s s' : Session}
  {observed : List Observation} {a : Action}

/-- A line is the echo of the command, or its result, or it leaves the session as it is. -/
theorem onLine_cases (handled : List Char → Bool) (behind : Option Int) (s : Session)
    (text : List Char) :
    (s.transaction.state = .commandSent ∧ s.transaction.command = text ∧
      s.onLine handled behind text =
        ([.echoed],{ s with transaction.state := .readingResult })) ∨
    (s.transaction.state = .readingResult ∧ ∃ result, s.onLine handled behind text =
      ([.stored result],
        { s with
          transaction := { s.transaction with state := .idle,result := result }
          posting := true })) ∨
    s.onLine handled behind text = ([],s) := by
  unfold onLine Transaction.processReadLine
  by_cases hecho : s.transaction.state = .commandSent ∧ s.transaction.command = text
  · rw [if_pos hecho]
    exact .inl ⟨hecho.1,hecho.2,rfl⟩
  rw [if_neg hecho]
  split_ifs with hevent hreading
  · exact .inr (.inr rfl)
  · cases resultLine behind text with
    | none => exact .inr (.inr rfl)
    | some code => exact .inr (.inl ⟨hreading,_,rfl⟩)
  · exact .inr (.inr rfl)

/-- Whether the thread is inside a command. -/
def threadOpen (s : Session) : Nat :=
  if s.transaction.state = .idle ∧ s.posting = false then 0 else 1

/-- Whether a command has been handed to the thread and not been sent. -/
def handedOver (s : Session) : Nat := if s.env2AT.message = some .ready then 1 else 0

def resultWaits (s : Session) : Nat := if s.at2Env = true then 1 else 0

/-- What holds in every run: the results that are or may still be posted are few enough for the
caller to take them. -/
structure Inv (s : Session) : Prop where
  not_aborted : s.transaction.state ≠ .aborted
  posting_state : s.posting = true → s.transaction.state = .idle ∧ s.env2AT.isTaken = false
  cancelled : s.env2AT.message = some .timeout → s.caller ≠ .waiting ∧ s.caller ≠ .timedOut
  commands : s.caller ≠ .waiting → s.caller ≠ .timedOut → s.threadOpen + s.handedOver ≤ 1
  results : s.threadOpen + s.handedOver + s.resultWaits ≤ 2
  cleared : s.caller = .discarded ∨ s.caller = .commandSet →
    s.threadOpen + s.handedOver + s.resultWaits ≤ 1

theorem inv_start (result : AtResult) : Inv (start result) := by
  constructor <;> simp [start,threadOpen,handedOver,resultWaits,Mailbox.message]

theorem threadOpen_le (s : Session) : s.threadOpen ≤ 1 := by
  unfold threadOpen
  split_ifs <;> omega

theorem threadOpen_of_state (h : s.transaction.state ≠ .idle) : s.threadOpen = 1 :=
  if_neg fun hboth => h hboth.1

theorem handedOver_of_message {m : Option Message} (h : s.env2AT.message = m) :
    s.handedOver = if m = some .ready then 1 else 0 := by
  rw [handedOver,h]

theorem handedOver_of_free (h : s.env2AT = .free) : s.handedOver = 0 := by
  rw [handedOver,h]
  rfl

theorem Inv.not_posting (hi : Inv s) {m : Message} (h : s.env2AT = .taken m) :
    s.posting = false := by
  cases hposting : s.posting with
  | false => rfl
  | true =>
    have hnot := (hi.posting_state hposting).2
    rw [h] at hnot
    cases hnot

/-- The places where the caller has no message in `m_env2AT` that it waits for. -/
theorem outside {c : Caller} (h : c = .idle ∨ c = .discarded ∨ c = .commandSet) :
    c ≠ .waiting ∧ c ≠ .timedOut := by
  rcases h with rfl | rfl | rfl <;> decide

/-- The steps of the caller. -/
theorem inv_caller (hi : Inv s)
    (ha : ∀ text, a ≠ .line text ∧ a ≠ .postResult ∧ a ≠ .take ∧ a ≠ .act)
    (h : s.step handled behind a = some (observed,s')) : Inv s' := by
  cases a with
  | discard =>
    simp only [step] at h
    split_ifs at h with hc
    cases h
    have hopen := hi.commands (outside (.inl hc)).1 (outside (.inl hc)).2
    exact ⟨hi.not_aborted,hi.posting_state,fun _ => outside (.inr (.inl rfl)),fun _ _ => hopen,
      Nat.le_succ_of_le hopen,fun _ => hopen⟩
  | setCommand command =>
    simp only [step] at h
    split_ifs at h with hc
    cases h
    have hcleared := hi.cleared (.inl hc)
    exact ⟨hi.not_aborted,hi.posting_state,fun _ => outside (.inr (.inr rfl)),
      fun _ _ => Nat.le_trans (Nat.le_add_right _ _) hcleared,hi.results,fun _ => hcleared⟩
  | postReady =>
    simp only [step] at h
    split_ifs at h with hc
    cases h
    have hcleared := hi.cleared (.inr hc.1)
    rw [handedOver_of_free hc.2] at hcleared
    refine ⟨hi.not_aborted,fun hposting => ⟨(hi.posting_state hposting).1,rfl⟩,?_,
      fun hnot => absurd rfl hnot,?_,?_⟩
    · intro hmessage
      cases hmessage
    · exact (show s.threadOpen + 1 + s.resultWaits ≤ 2 by omega)
    · rintro (hcaller | hcaller) <;> cases hcaller
  | getResult =>
    simp only [step] at h
    split_ifs at h with hc
    cases h
    have hresults := hi.results
    have hwaits : s.resultWaits = 1 := if_pos hc.2
    have hopen : s.threadOpen + s.handedOver ≤ 1 := by omega
    refine ⟨hi.not_aborted,hi.posting_state,fun _ => outside (.inl rfl),fun _ _ => hopen,
      Nat.le_succ_of_le hopen,?_⟩
    rintro (hcaller | hcaller) <;> cases hcaller
  | timeout =>
    simp only [step] at h
    split_ifs at h with hc
    cases h
    refine ⟨hi.not_aborted,hi.posting_state,?_,fun _ hnot => absurd rfl hnot,hi.results,?_⟩
    · intro hmessage
      exact absurd hc.1 (hi.cancelled hmessage).1
    · rintro (hcaller | hcaller) <;> cases hcaller
  | postTimeout =>
    simp only [step] at h
    split_ifs at h with hc
    cases h
    have hresults := hi.results
    rw [handedOver_of_free hc.2] at hresults
    refine ⟨hi.not_aborted,fun hposting => ⟨(hi.posting_state hposting).1,rfl⟩,
      fun _ => outside (.inl rfl),fun _ _ => threadOpen_le s,hresults,?_⟩
    rintro (hcaller | hcaller) <;> cases hcaller
  | line text => exact absurd rfl (ha text).1
  | postResult => exact absurd rfl (ha []).2.1
  | take => exact absurd rfl (ha []).2.2.1
  | act => exact absurd rfl (ha []).2.2.2

/-- A step of the thread that keeps what the caller sees, and does not add results to come. -/
theorem Inv.thread (hi : Inv s) (hab : s'.transaction.state ≠ .aborted)
    (hposting : s'.posting = true → s'.transaction.state = .idle ∧ s'.env2AT.isTaken = false)
    (hcaller : s'.caller = s.caller)
    (hmessage : s'.env2AT.message = some .timeout → s.env2AT.message = some .timeout)
    (hopen : s'.threadOpen + s'.handedOver ≤ s.threadOpen + s.handedOver)
    (hsum : s'.threadOpen + s'.handedOver + s'.resultWaits ≤
      s.threadOpen + s.handedOver + s.resultWaits) : Inv s' := by
  refine ⟨hab,hposting,?_,?_,Nat.le_trans hsum hi.results,?_⟩
  · rw [hcaller]
    exact fun hm => hi.cancelled (hmessage hm)
  · rw [hcaller]
    exact fun hwaiting htimedOut => Nat.le_trans hopen (hi.commands hwaiting htimedOut)
  · rw [hcaller]
    exact fun hc => Nat.le_trans hsum (hi.cleared hc)

theorem inv_step (hi : Inv s) (h : s.step handled behind a = some (observed,s')) : Inv s' := by
  cases a with
  | line text =>
    simp only [step] at h
    split_ifs at h with hc
    rcases onLine_cases handled behind s text with
      ⟨hstate,-,heq⟩ | ⟨hstate,result,heq⟩ | heq
    · rw [heq] at h
      cases h
      have hbefore := threadOpen_of_state (s := s) (by rw [hstate]; decide)
      refine hi.thread (fun heq => by cases heq) ?_ rfl id ?_ ?_
      · intro hposting
        rw [hc.1] at hposting
        cases hposting
      · exact (show 1 + s.handedOver ≤ _ by rw [hbefore])
      · exact (show 1 + s.handedOver + s.resultWaits ≤ _ by rw [hbefore])
    · rw [heq] at h
      cases h
      have hbefore := threadOpen_of_state (s := s) (by rw [hstate]; decide)
      refine hi.thread (fun heq => by cases heq) (fun _ => ⟨rfl,hc.2⟩) rfl id ?_ ?_
      · exact (show 1 + s.handedOver ≤ _ by rw [hbefore])
      · exact (show 1 + s.handedOver + s.resultWaits ≤ _ by rw [hbefore])
    · rw [heq] at h
      cases h
      exact hi
  | postResult =>
    simp only [step] at h
    split_ifs at h with hc
    cases h
    have hstate := (hi.posting_state hc.1).1
    have hbefore : s.threadOpen = 1 := if_neg (by rw [hc.1]; exact fun hboth => by cases hboth.2)
    have hafter : ({ s with posting := false,at2Env := true } : Session).threadOpen = 0 :=
      if_pos ⟨hstate,rfl⟩
    have hwaits : s.resultWaits = 0 := if_neg (by rw [hc.2]; exact Bool.false_ne_true)
    refine hi.thread hi.not_aborted (fun hposting => by cases hposting) rfl id ?_ ?_
    · rw [hafter,hbefore]
      exact (show 0 + s.handedOver ≤ 1 + s.handedOver by omega)
    · rw [hafter,hbefore,hwaits]
      exact (show 0 + s.handedOver + 1 ≤ 1 + s.handedOver + 0 by omega)
  | take =>
    simp only [step] at h
    split at h
    · rename_i m hqueued
      split_ifs at h with hposting
      cases h
      have hmessage : s.env2AT.message = some m := by rw [hqueued]; rfl
      have hsame : s.handedOver = if some m = some .ready then 1 else 0 :=
        handedOver_of_message hmessage
      refine hi.thread hi.not_aborted ?_ rfl ?_ ?_ ?_
      · intro htrue
        rw [hposting] at htrue
        cases htrue
      · rw [hmessage]
        exact id
      · rw [hsame]
        exact Nat.le_refl _
      · rw [hsame]
        exact Nat.le_refl _
    · cases h
  | act =>
    simp only [step] at h
    split at h
    · rename_i m htaken
      have hnot := hi.not_posting htaken
      have hmessage : s.env2AT.message = some m := by rw [htaken]; rfl
      have hsame : s.handedOver = if some m = some .ready then 1 else 0 :=
        handedOver_of_message hmessage
      have hle := threadOpen_le s
      cases m with
      | ready =>
        cases h
        have hone : s.handedOver = 1 := hsame
        refine hi.thread (fun heq => by cases heq) (fun htrue => by cases hnot.symm.trans htrue) rfl
          (fun hm => by cases hm) ?_ ?_
        · exact (show 1 + 0 ≤ s.threadOpen + s.handedOver by omega)
        · exact (show 1 + 0 + s.resultWaits ≤ s.threadOpen + s.handedOver + s.resultWaits by omega)
      | timeout =>
        cases h
        have hzero : s.handedOver = 0 := hsame
        have hafter : ({ s with env2AT := .free,transaction.state := .idle } : Session).threadOpen =
            0 := if_pos ⟨rfl,hnot⟩
        refine hi.thread (fun heq => by cases heq) (fun htrue => by cases hnot.symm.trans htrue) rfl
          (fun hm => by cases hm) ?_ ?_
        · rw [hafter]
          exact Nat.zero_le _
        · rw [hafter]
          exact (show 0 + 0 + s.resultWaits ≤ s.threadOpen + s.handedOver + s.resultWaits by omega)
    · cases h
  | _ => exact inv_caller hi (fun _ => ⟨by simp,by simp,by simp,by simp⟩) h

/-- The two sides can bring the call to its end in at most `n` steps, without a line of the
modem. -/
def Returns (handled : List Char → Bool) (behind : Option Int) (n : Nat) (s : Session) : Prop :=
  ∃ actions outputs s', actions.length ≤ n ∧ (∀ text, Action.line text ∉ actions) ∧
    Transition.run (step handled behind) s actions = some (outputs,s') ∧ s'.caller = .idle

theorem Returns.of_idle (hc : s.caller = .idle) : Returns handled behind 0 s :=
  ⟨[],[],s,Nat.le_refl 0,fun _ => List.not_mem_nil,rfl,hc⟩

theorem Returns.step {n : Nat} (ha : ∀ text, a ≠ .line text)
    (hstep : s.step handled behind a = some (observed,s')) (h : Returns handled behind n s') :
    Returns handled behind (n + 1) s := by
  obtain ⟨actions,outputs,s₂,hlength,hline,hrun,hidle⟩ := h
  refine ⟨a :: actions,observed :: outputs,s₂,Nat.succ_le_succ hlength,fun text hmem => ?_,?_,
    hidle⟩
  · rcases List.mem_cons.mp hmem with heq | hmem
    · exact ha text heq.symm
    · exact hline text hmem
  · exact (Transition.run_cons_eq_some_iff hstep).mpr ⟨outputs,rfl,hrun⟩

theorem Returns.le {m n : Nat} (h : Returns handled behind m s) (hle : m ≤ n) :
    Returns handled behind n s := by
  obtain ⟨actions,outputs,s',hlength,hrest⟩ := h
  exact ⟨actions,outputs,s',Nat.le_trans hlength hle,hrest⟩

/-- The thread acts on the message that it has taken. -/
theorem Returns.of_taken (hi : Inv s) {m : Message} (htaken : s.env2AT = .taken m) {n : Nat}
    (hnext : ∀ s₁, Inv s₁ → s₁.env2AT = .free → s₁.caller = s.caller →
      Returns handled behind n s₁) : Returns handled behind (n + 1) s := by
  have hstep : s.step handled behind .act = some (s.onMessage m) := by
    simp only [Session.step,htaken]
  refine Returns.step (fun _ => by simp) hstep (hnext _ (inv_step hi hstep) ?_ ?_)
  · cases m <;> rfl
  · cases m <;> rfl

theorem Returns.of_queued (hi : Inv s) {m : Message} (hqueued : s.env2AT = .queued m)
    (hposting : s.posting = false) {n : Nat}
    (hnext : ∀ s₁, Inv s₁ → s₁.env2AT = .free → s₁.caller = s.caller →
      Returns handled behind n s₁) : Returns handled behind (n + 2) s := by
  have hstep : s.step handled behind .take = some ([],{ s with env2AT := .taken m }) := by
    simp only [Session.step,hqueued,if_pos hposting]
  exact Returns.step (fun _ => by simp) hstep (Returns.of_taken (inv_step hi hstep) rfl hnext)

/-- The thread takes the message that waits for it, when the result that it may have to post first
can be posted. -/
theorem Returns.of_mailbox (hi : Inv s)
    (hroom : s.env2AT ≠ .free → s.posting = true → s.at2Env = false) {n : Nat}
    (hnext : ∀ s₁, Inv s₁ → s₁.env2AT = .free → s₁.caller = s.caller →
      Returns handled behind n s₁) : Returns handled behind (n + 3) s := by
  cases henv : s.env2AT with
  | free => exact (hnext s hi henv rfl).le (by omega)
  | taken m => exact (Returns.of_taken hi henv hnext).le (by omega)
  | queued m =>
    cases hposting : s.posting with
    | false => exact (Returns.of_queued hi henv hposting hnext).le (by omega)
    | true =>
      have hempty := hroom (by rw [henv]; exact fun heq => by cases heq) hposting
      have hstep : s.step handled behind .postResult =
          some ([],{ s with posting := false,at2Env := true }) := by
        simp only [Session.step,if_pos (And.intro hposting hempty)]
      exact Returns.step (fun _ => by simp) hstep
        (Returns.of_queued (inv_step hi hstep) henv rfl hnext)

theorem threadOpen_of_posting (h : s.posting = true) : s.threadOpen = 1 :=
  if_neg (by rw [h]; exact fun hboth => by cases hboth.2)

theorem at2Env_of_resultWaits (h : s.resultWaits = 0) : s.at2Env = false := by
  cases hwaits : s.at2Env with
  | false => rfl
  | true =>
    rw [resultWaits,if_pos hwaits] at h
    cases h

/-- A command that has timed out is cancelled. -/
theorem Returns.of_timedOut (hi : Inv s) (hc : s.caller = .timedOut) :
    Returns handled behind 4 s := by
  refine Returns.of_mailbox hi ?_ ?_
  · intro hbusy hposting
    have hready : s.handedOver = 1 := by
      obtain ⟨m,hm⟩ : ∃ m, s.env2AT.message = some m := by
        cases henv : s.env2AT with
        | free => exact absurd henv hbusy
        | queued m => exact ⟨m,rfl⟩
        | taken m => exact ⟨m,rfl⟩
      cases m with
      | ready => exact if_pos hm
      | timeout => exact absurd hc (hi.cancelled hm).2
    have hresults := hi.results
    rw [threadOpen_of_posting hposting,hready] at hresults
    exact at2Env_of_resultWaits (by omega)
  · intro s₁ _ hfree hcaller
    have hstep : s₁.step handled behind .postTimeout =
        some ([],{ s₁ with caller := .idle,env2AT := .queued .timeout }) := by
      simp only [Session.step,if_pos (And.intro (hcaller.trans hc) hfree)]
    exact Returns.step (fun _ => by simp) hstep (.of_idle rfl)

theorem Returns.of_waiting (hi : Inv s) (hc : s.caller = .waiting) :
    Returns handled behind 5 s := by
  cases hresult : s.at2Env with
  | true =>
    have hstep : s.step handled behind .getResult = some ([.returned s.transaction.result],
        { s with caller := .idle,at2Env := false }) := by
      simp only [Session.step,if_pos (And.intro hc hresult)]
    exact (Returns.step (fun _ => by simp) hstep (.of_idle rfl)).le (by omega)
  | false =>
    have hstep : s.step handled behind .timeout =
        some ([.timedOut],{ s with caller := .timedOut }) := by
      simp only [Session.step,if_pos (And.intro hc hresult)]
    exact Returns.step (fun _ => by simp) hstep (.of_timedOut (inv_step hi hstep) rfl)

theorem Returns.of_commandSet (hi : Inv s) (hc : s.caller = .commandSet) :
    Returns handled behind 9 s := by
  refine Returns.of_mailbox hi ?_ ?_
  · intro _ hposting
    have hcleared := hi.cleared (.inr hc)
    rw [threadOpen_of_posting hposting] at hcleared
    exact at2Env_of_resultWaits (by omega)
  · intro s₁ hi₁ hfree hcaller
    have hstep : s₁.step handled behind .postReady =
        some ([],{ s₁ with caller := .waiting,env2AT := .queued .ready }) := by
      simp only [Session.step,if_pos (And.intro (hcaller.trans hc) hfree)]
    exact Returns.step (fun _ => by simp) hstep (.of_waiting (inv_step hi₁ hstep) rfl)

theorem inv_of_reaches {result : AtResult}
    (h : Transition.Reaches (step handled behind) (start result) s) : Inv s := by
  obtain ⟨inputs,outputs,hrun⟩ := h
  exact Transition.run_invariant (fun _ _ _ _ hi hstep => inv_step hi hstep) (inv_start result) hrun

/-- No command is open: the thread is not inside one, and none has been handed to it. When the
thread has taken `AT_TIMEOUT` it leaves the command without reading on. -/
structure Quiet (s : Session) : Prop where
  state : s.transaction.state = .idle ∨ s.env2AT = .taken .timeout
  posting : s.posting = false
  message : s.env2AT.message ≠ some .ready

instance (s : Session) : Decidable s.Quiet :=
  decidable_of_iff ((s.transaction.state = .idle ∨ s.env2AT = .taken .timeout) ∧
    s.posting = false ∧ s.env2AT.message ≠ some .ready)
    ⟨fun h => ⟨h.1,h.2.1,h.2.2⟩,fun h => ⟨h.state,h.posting,h.message⟩⟩

/-- What a call observes whose result is that of its own command. -/
def answered (command : List Char) (result : AtResult) : List Observation :=
  [.discarded,.issued command,.sent command,.echoed,.stored result,.returned result]

/-- Where a call is that was begun when no command was open, by what has been observed since. -/
inductive Owns : List Observation → Session → Prop
  | discarded {s : Session} (caller : s.caller = .discarded) (quiet : s.Quiet)
      (empty : s.at2Env = false) : Owns [.discarded] s
  | issued {s : Session} {c : List Char} (caller : s.caller = .commandSet) (quiet : s.Quiet)
      (empty : s.at2Env = false) (command : s.transaction.command = c) :
      Owns [.discarded,.issued c] s
  | handedOver {s : Session} {c : List Char} (caller : s.caller = .waiting)
      (state : s.transaction.state = .idle) (posting : s.posting = false)
      (empty : s.at2Env = false) (message : s.env2AT.message = some .ready)
      (command : s.transaction.command = c) : Owns [.discarded,.issued c] s
  | sent {s : Session} {c : List Char} (caller : s.caller = .waiting)
      (state : s.transaction.state = .commandSent) (posting : s.posting = false)
      (empty : s.at2Env = false) (free : s.env2AT = .free)
      (command : s.transaction.command = c) : Owns [.discarded,.issued c,.sent c] s
  | echoed {s : Session} {c : List Char} (caller : s.caller = .waiting)
      (state : s.transaction.state = .readingResult) (posting : s.posting = false)
      (empty : s.at2Env = false) (free : s.env2AT = .free) :
      Owns [.discarded,.issued c,.sent c,.echoed] s
  | stored {s : Session} {c : List Char} {r : AtResult} (caller : s.caller = .waiting)
      (state : s.transaction.state = .idle) (one : s.at2Env = !s.posting)
      (free : s.env2AT = .free) (result : s.transaction.result = r) :
      Owns [.discarded,.issued c,.sent c,.echoed,.stored r] s
  | returned {s : Session} {c : List Char} {r : AtResult} (caller : s.caller = .idle)
      (state : s.transaction.state = .idle) (posting : s.posting = false)
      (free : s.env2AT = .free) : Owns (answered c r) s

theorem onLine_idle (hstate : s.transaction.state = .idle) (text : List Char) :
    s.onLine handled behind text = ([],s) := by
  rcases onLine_cases handled behind s text with
    ⟨hsent,-⟩ | ⟨hreading,-⟩ | heq
  · rw [hstate] at hsent
    cases hsent
  · rw [hstate] at hreading
    cases hreading
  · exact heq

/-- A line of the modem changes nothing where no command is open. -/
theorem Quiet.line (hquiet : s.Quiet) {text : List Char}
    (h : s.step handled behind (.line text) = some (observed,s')) : observed = [] ∧ s' = s := by
  simp only [step] at h
  split_ifs at h with hc
  rcases hquiet.state with hstate | htaken
  · rw [onLine_idle hstate] at h
    cases h
    exact ⟨rfl,rfl⟩
  · rw [htaken] at hc
    cases hc.2

/-- The thread takes and frees an `AT_TIMEOUT` of an earlier call. -/
theorem Quiet.message_step (hquiet : s.Quiet) (ha : a = .take ∨ a = .act)
    (h : s.step handled behind a = some (observed,s')) :
    observed = [] ∧ s'.Quiet ∧ s'.caller = s.caller ∧ s'.at2Env = s.at2Env ∧
      s'.transaction.command = s.transaction.command := by
  have hmessage := hquiet.message
  rcases ha with rfl | rfl
  · simp only [step] at h
    split at h
    · rename_i m hqueued
      split_ifs at h
      cases h
      rw [hqueued] at hmessage
      refine ⟨rfl,⟨?_,hquiet.posting,hmessage⟩,rfl,rfl,rfl⟩
      cases m with
      | ready => exact absurd rfl hmessage
      | timeout => exact .inr rfl
    · cases h
  · simp only [step] at h
    split at h
    · rename_i m htaken
      rw [htaken] at hmessage
      cases m with
      | ready => exact absurd rfl hmessage
      | timeout =>
        cases h
        exact ⟨rfl,⟨.inl rfl,hquiet.posting,fun hm => by cases hm⟩,rfl,rfl,rfl⟩
    · cases h

/-- A call that was begun when no command was open goes on with its own command. -/
theorem owns_step {trace : List Observation} (hdiscard : a ≠ .discard) (htimeout : a ≠ .timeout)
    (howns : Owns trace s) (h : s.step handled behind a = some (observed,s')) :
    Owns (trace ++ observed) s' := by
  cases howns with
  | discarded caller quiet empty =>
    cases a with
    | discard => exact absurd rfl hdiscard
    | setCommand command =>
      rw [step,if_pos caller] at h
      cases h
      exact .issued rfl ⟨quiet.state,quiet.posting,quiet.message⟩ empty rfl
    | line text =>
      obtain ⟨rfl,rfl⟩ := quiet.line h
      exact .discarded caller quiet empty
    | take =>
      obtain ⟨rfl,hquiet,hcaller,hempty,-⟩ := quiet.message_step (.inl rfl) h
      exact .discarded (hcaller.trans caller) hquiet (hempty.trans empty)
    | act =>
      obtain ⟨rfl,hquiet,hcaller,hempty,-⟩ := quiet.message_step (.inr rfl) h
      exact .discarded (hcaller.trans caller) hquiet (hempty.trans empty)
    | _ => simp [step,caller,quiet.posting] at h
  | issued caller quiet empty command =>
    cases a with
    | postReady =>
      simp only [step] at h
      split_ifs at h with hc
      cases h
      have hstate : s.transaction.state = .idle := by
        rcases quiet.state with hidle | htaken
        · exact hidle
        · rw [hc.2] at htaken
          cases htaken
      exact .handedOver rfl hstate quiet.posting empty rfl command
    | line text =>
      obtain ⟨rfl,rfl⟩ := quiet.line h
      exact .issued caller quiet empty command
    | take =>
      obtain ⟨rfl,hquiet,hcaller,hempty,hcommand⟩ := quiet.message_step (.inl rfl) h
      exact .issued (hcaller.trans caller) hquiet (hempty.trans empty) (hcommand.trans command)
    | act =>
      obtain ⟨rfl,hquiet,hcaller,hempty,hcommand⟩ := quiet.message_step (.inr rfl) h
      exact .issued (hcaller.trans caller) hquiet (hempty.trans empty) (hcommand.trans command)
    | _ => simp [step,caller,quiet.posting] at h
  | handedOver caller state posting empty message command =>
    cases a with
    | timeout => exact absurd rfl htimeout
    | line text =>
      simp only [step,onLine_idle state] at h
      split_ifs at h
      cases h
      exact .handedOver caller state posting empty message command
    | take =>
      simp only [step] at h
      split at h
      · rename_i m hqueued
        split_ifs at h
        cases h
        rw [hqueued] at message
        exact .handedOver caller state posting empty message command
      · cases h
    | act =>
      simp only [step] at h
      split at h
      · rename_i m htaken
        rw [htaken] at message
        cases message
        cases h
        subst command
        exact .sent (s := { s with env2AT := .free,transaction.state := .commandSent }) caller rfl
          posting empty rfl rfl
      · cases h
    | _ => simp [step,caller,posting,empty] at h
  | sent caller state posting empty free command =>
    cases a with
    | timeout => exact absurd rfl htimeout
    | line text =>
      simp only [step] at h
      split_ifs at h
      rcases onLine_cases handled behind s text with
        ⟨-,-,heq⟩ | ⟨hreading,-⟩ | heq
      · rw [heq] at h
        cases h
        exact .echoed caller rfl posting empty free
      · rw [state] at hreading
        cases hreading
      · rw [heq] at h
        cases h
        exact .sent caller state posting empty free command
    | _ => simp [step,caller,posting,empty,free] at h
  | echoed caller state posting empty free =>
    cases a with
    | timeout => exact absurd rfl htimeout
    | line text =>
      simp only [step] at h
      split_ifs at h
      rcases onLine_cases handled behind s text with
        ⟨hsent,-⟩ | ⟨-,result,heq⟩ | heq
      · rw [state] at hsent
        cases hsent
      · rw [heq] at h
        cases h
        exact .stored caller rfl empty free rfl
      · rw [heq] at h
        cases h
        exact .echoed caller state posting empty free
    | _ => simp [step,caller,posting,empty,free] at h
  | stored caller state one free result =>
    cases a with
    | timeout => exact absurd rfl htimeout
    | line text =>
      simp only [step,onLine_idle state] at h
      split_ifs at h
      cases h
      exact .stored caller state one free result
    | postResult =>
      simp only [step] at h
      split_ifs at h
      cases h
      exact .stored caller state rfl free result
    | getResult =>
      simp only [step] at h
      split_ifs at h with hc
      cases h
      have hposting : s.posting = false := by
        rw [hc.2] at one
        exact (Bool.not_eq_true' _).mp one.symm
      exact result ▸ .returned rfl state hposting free
    | _ => simp [step,caller,free] at h
  | returned caller state posting free =>
    cases a with
    | line text =>
      simp only [step,onLine_idle state] at h
      split_ifs at h
      cases h
      exact .returned caller state posting free
    | discard => exact absurd rfl hdiscard
    | _ => simp [step,caller,posting,free] at h

/-- A call that has timed out returns no result, whatever the thread still does. -/
structure Abandoned (trace : List Observation) (s : Session) : Prop where
  caller : s.caller = .timedOut ∨ s.caller = .idle
  never : ∀ result, Observation.returned result ∉ trace

theorem onLine_observes (handled : List Char → Bool) (behind : Option Int) (s : Session)
    (text : List Char) :
    (∀ result, Observation.returned result ∉ (s.onLine handled behind text).1) ∧
      (s.onLine handled behind text).2.caller = s.caller := by
  rcases onLine_cases handled behind s text with
    ⟨-,-,heq⟩ | ⟨-,_,heq⟩ | heq <;> rw [heq] <;> simp

theorem onMessage_observes (m : Message) :
    (∀ result, Observation.returned result ∉ (s.onMessage m).1) ∧
      (s.onMessage m).2.caller = s.caller := by
  cases m <;> simp [onMessage]

theorem Abandoned.append {trace : List Observation} (habandoned : Abandoned trace s)
    (hcaller : s'.caller = s.caller ∨ s'.caller = .idle)
    (hnever : ∀ result, Observation.returned result ∉ observed) :
    Abandoned (trace ++ observed) s' := by
  refine ⟨?_,fun result hmem => ?_⟩
  · rcases hcaller with hsame | hidle
    · rw [hsame]
      exact habandoned.caller
    · exact .inr hidle
  · rcases List.mem_append.mp hmem with hmem | hmem
    · exact habandoned.never result hmem
    · exact hnever result hmem

theorem abandoned_step {trace : List Observation} (hdiscard : a ≠ .discard)
    (habandoned : Abandoned trace s) (h : s.step handled behind a = some (observed,s')) :
    Abandoned (trace ++ observed) s' := by
  cases a with
  | discard => exact absurd rfl hdiscard
  | postTimeout =>
    simp only [step] at h
    split_ifs at h
    cases h
    exact habandoned.append (.inr rfl) fun _ => List.not_mem_nil
  | line text =>
    simp only [step] at h
    split_ifs at h
    have hobserves := onLine_observes handled behind s text
    rw [Option.some.inj h] at hobserves
    exact habandoned.append (.inl hobserves.2) hobserves.1
  | postResult =>
    simp only [step] at h
    split_ifs at h
    cases h
    exact habandoned.append (.inl rfl) fun _ => List.not_mem_nil
  | take =>
    simp only [step] at h
    split at h
    · split_ifs at h
      cases h
      exact habandoned.append (.inl rfl) fun _ => List.not_mem_nil
    · cases h
  | act =>
    simp only [step] at h
    split at h
    · rename_i m htaken
      have hobserves := onMessage_observes (s := s) m
      rw [Option.some.inj h] at hobserves
      exact habandoned.append (.inl hobserves.2) hobserves.1
    · cases h
  | _ => rcases habandoned.caller with hcaller | hcaller <;> simp [step,hcaller] at h

/-- Only a call that has returned a result of its own command has observed one. -/
theorem Owns.returned_eq {trace : List Observation} {result : AtResult} (howns : Owns trace s)
    (hmem : .returned result ∈ trace) : ∃ command, trace = answered command result := by
  cases howns with
  | returned =>
    rename_i c r _ _ _ _
    have heq : result = r := by simpa [answered] using hmem
    exact ⟨c,by rw [heq]⟩
  | _ => simp at hmem

theorem Owns.never {trace : List Observation} (howns : Owns trace s)
    (hcaller : s.caller = .waiting) (result : AtResult) : .returned result ∉ trace := by
  intro hmem
  cases howns with
  | returned hidle =>
    rw [hidle] at hcaller
    cases hcaller
  | _ => simp at hmem

/-- One call: from its discarding on, it owns what the thread does, or it has timed out. -/
theorem call_step {trace : List Observation} (hdiscard : a ≠ .discard)
    (hcall : Owns trace s ∨ Abandoned trace s)
    (h : s.step handled behind a = some (observed,s')) :
    Owns (trace ++ observed) s' ∨ Abandoned (trace ++ observed) s' := by
  rcases hcall with howns | habandoned
  · by_cases htimeout : a = .timeout
    · subst htimeout
      simp only [step] at h
      split_ifs at h with hc
      cases h
      refine .inr ⟨.inl rfl,fun result hmem => ?_⟩
      rcases List.mem_append.mp hmem with hmem | hmem
      · exact howns.never hc.1 result hmem
      · simp at hmem
    · exact .inl (owns_step hdiscard htimeout howns h)
  · exact .inr (abandoned_step hdiscard habandoned h)

/-- Any result that the next call returns is that of the command of this call: whatever the order
of the steps, the call has set a command, the thread has sent it, read its echo, and stored the
result. -/
def ReturnsOwn (handled : List Char → Bool) (behind : Option Int) (s : Session) : Prop :=
  ∀ inputs outputs s' result, .discard ∉ inputs →
    Transition.run (step handled behind) s (.discard :: inputs) = some (outputs,s') →
    .returned result ∈ outputs.flatten → ∃ command, outputs.flatten = answered command result

theorem returnsOwn_of_quiet (hquiet : s.Quiet) : ReturnsOwn handled behind s := by
  intro inputs outputs s' result hinputs hrun hmem
  cases hfirst : s.step handled behind .discard with
  | none =>
    rw [Transition.run,hfirst] at hrun
    cases hrun
  | some reached =>
    obtain ⟨output,next⟩ := reached
    obtain ⟨rest,rfl,hrest⟩ := (Transition.run_cons_eq_some_iff hfirst).mp hrun
    simp only [step] at hfirst
    split_ifs at hfirst
    cases hfirst
    have hbegun : Owns [.discarded] { s with caller := .discarded,at2Env := false } :=
      .discarded rfl ⟨hquiet.state,hquiet.posting,hquiet.message⟩ rfl
    have hok : Transition.Meets (step handled behind) (fun _ a => a ≠ .discard)
        { s with caller := .discarded,at2Env := false } inputs :=
      Transition.meets_of_forall_mem (fun a ha _ => ne_of_mem_of_not_mem ha hinputs) _
    have hcall := Transition.run_observes (I := fun trace s => Owns trace s ∨ Abandoned trace s)
      (fun _ _ _ _ _ hcall hok hstep => call_step hok hcall hstep) inputs _ [.discarded]
      (.inl hbegun) hok hrest
    rw [List.flatten_cons] at hmem ⊢
    rcases hcall with howns | habandoned
    · exact howns.returned_eq hmem
    · exact absurd hmem (habandoned.never result)

/-- The call can return a result that was stored before it had set its command. -/
def Stale (handled : List Char → Bool) (behind : Option Int) (s : Session) : Prop :=
  ∃ inputs outputs s' trace command result, .discard ∉ inputs ∧
    Transition.run (step handled behind) s inputs = some (outputs,s') ∧
    outputs.flatten = trace ++ [.issued command,.returned result]

theorem Stale.step (hstep : s.step handled behind a = some (observed,s')) (ha : a ≠ .discard)
    (h : Stale handled behind s') : Stale handled behind s := by
  obtain ⟨inputs,outputs,last,trace,command,result,hinputs,hrun,htrace⟩ := h
  refine ⟨a :: inputs,observed :: outputs,last,observed ++ trace,command,result,?_,
    (Transition.run_cons_eq_some_iff hstep).mpr ⟨outputs,rfl,hrun⟩,?_⟩
  · rw [List.mem_cons,not_or]
    exact ⟨fun heq => ha heq.symm,hinputs⟩
  · rw [List.flatten_cons,htrace,List.append_assoc]

/-- The result of an earlier command waits, and the call goes on to it. -/
theorem Stale.of_free (hcaller : s.caller = .discarded) (hresult : s.at2Env = true)
    (hfree : s.env2AT = .free) : Stale handled behind s :=
  ⟨[.setCommand [],.postReady,.getResult],[[.issued []],[],[.returned s.transaction.result]],_,[],
    [],s.transaction.result,by simp,by
      simp [Transition.run,Session.step,hcaller,hresult,hfree]; rfl,rfl⟩

theorem Stale.of_posted (hcaller : s.caller = .discarded) (hresult : s.at2Env = true)
    (hposting : s.posting = false) (hready : s.env2AT.message ≠ some .ready) :
    Stale handled behind s := by
  have htaken : ∀ s : Session, s.caller = .discarded → s.at2Env = true →
      s.env2AT = .taken .timeout → Stale handled behind s := by
    intro s hcaller hresult hmessage
    have hstep : s.step handled behind .act =
        some ([],{ s with env2AT := .free,transaction.state := .idle }) := by
      simp only [Session.step,hmessage,onMessage]
    exact .step hstep (fun heq => by cases heq) (.of_free hcaller hresult rfl)
  cases hmailbox : s.env2AT with
  | free => exact .of_free hcaller hresult hmailbox
  | queued m =>
    rw [hmailbox] at hready
    cases m with
    | ready => exact absurd rfl hready
    | timeout =>
      have hstep : s.step handled behind .take =
          some ([],{ s with env2AT := .taken .timeout }) := by
        simp only [Session.step,hmailbox,if_pos hposting]
      exact .step hstep (fun heq => by cases heq) (htaken _ hcaller hresult rfl)
  | taken m =>
    rw [hmailbox] at hready
    cases m with
    | ready => exact absurd rfl hready
    | timeout => exact htaken s hcaller hresult hmailbox

theorem Stale.of_posting (hcaller : s.caller = .discarded) (hempty : s.at2Env = false)
    (hposting : s.posting = true) (hready : s.env2AT.message ≠ some .ready) :
    Stale handled behind s := by
  have hstep : s.step handled behind .postResult =
      some ([],{ s with posting := false,at2Env := true }) := by
    simp only [Session.step,if_pos (And.intro hposting hempty)]
  exact .step hstep (fun heq => by cases heq) (.of_posted hcaller rfl rfl hready)

theorem onLine_result (hstate : s.transaction.state = .readingResult) {text : List Char}
    {code : ResultLine} (hcode : resultLine behind text = some code) :
    s.onLine handled behind text = ([.stored (Modem.processReadLine s.transaction.result code)],
      { s with
        transaction := { s.transaction with
          state := .idle
          result := Modem.processReadLine s.transaction.result code }
        posting := true }) := by
  simp [onLine,Transaction.processReadLine,hstate,hcode]

theorem Stale.of_reading (hcaller : s.caller = .discarded) (hempty : s.at2Env = false)
    (hposting : s.posting = false) (hready : s.env2AT.message ≠ some .ready)
    (htaken : s.env2AT.isTaken = false) (hstate : s.transaction.state = .readingResult) :
    Stale handled behind s := by
  have hstep : s.step handled behind (.line "OK".toList) =
      some ([.stored (Modem.processReadLine s.transaction.result .ok)],
        { s with
          transaction := { s.transaction with
            state := .idle
            result := Modem.processReadLine s.transaction.result .ok }
          posting := true }) := by
    simp only [Session.step,if_pos (And.intro hposting htaken),onLine_result hstate (if_pos rfl)]
  exact .step hstep (fun heq => by cases heq) (.of_posting hcaller hempty rfl hready)

theorem Stale.of_sent (hcaller : s.caller = .discarded) (hempty : s.at2Env = false)
    (hposting : s.posting = false) (hready : s.env2AT.message ≠ some .ready)
    (htaken : s.env2AT.isTaken = false) (hstate : s.transaction.state = .commandSent) :
    Stale handled behind s := by
  have hstep : s.step handled behind (.line s.transaction.command) =
      some ([.echoed],{ s with transaction.state := .readingResult }) := by
    simp [Session.step,hposting,htaken,onLine,Transaction.processReadLine,hstate]
  exact .step hstep (fun heq => by cases heq)
    (.of_reading hcaller hempty hposting hready htaken rfl)

/-- The command of a call that is over is still to be sent. -/
theorem Stale.of_ready (hcaller : s.caller = .discarded) (hempty : s.at2Env = false)
    (hposting : s.posting = false) (hready : s.env2AT.message = some .ready) :
    Stale handled behind s := by
  have htaken : ∀ s : Session, s.caller = .discarded → s.at2Env = false → s.posting = false →
      s.env2AT = .taken .ready → Stale handled behind s := by
    intro s hcaller hempty hposting hmessage
    have hstep : s.step handled behind .act = some ([.sent s.transaction.command],
        { s with env2AT := .free,transaction.state := .commandSent }) := by
      simp only [Session.step,hmessage,onMessage]
    exact .step hstep (fun heq => by cases heq)
      (.of_sent hcaller hempty hposting (fun hm => by cases hm) rfl rfl)
  cases hmailbox : s.env2AT with
  | free =>
    rw [hmailbox] at hready
    cases hready
  | queued m =>
    rw [hmailbox] at hready
    cases hready
    have hstep : s.step handled behind .take = some ([],{ s with env2AT := .taken .ready }) := by
      simp only [Session.step,hmailbox,if_pos hposting]
    exact .step hstep (fun heq => by cases heq) (htaken _ hcaller hempty hposting rfl)
  | taken m =>
    rw [hmailbox] at hready
    cases hready
    exact htaken s hcaller hempty hposting hmailbox

/-- Where a command is open when a call begins, the call can return its result. -/
theorem stale_of_not_quiet (hi : Inv s) (hcaller : s.caller = .discarded)
    (hempty : s.at2Env = false) (hquiet : ¬s.Quiet) : Stale handled behind s := by
  have hone := hi.commands (outside (.inr (.inl hcaller))).1 (outside (.inr (.inl hcaller))).2
  have hready : s.threadOpen = 1 → s.env2AT.message ≠ some .ready := by
    intro hopen hmessage
    rw [hopen,show s.handedOver = 1 from if_pos hmessage] at hone
    omega
  cases hposting : s.posting with
  | true => exact .of_posting hcaller hempty hposting (hready (threadOpen_of_posting hposting))
  | false =>
    by_cases hmessage : s.env2AT.message = some .ready
    · exact .of_ready hcaller hempty hposting hmessage
    · have hstate : ¬(s.transaction.state = .idle ∨ s.env2AT = .taken .timeout) :=
        fun h => hquiet ⟨h,hposting,hmessage⟩
      rw [not_or] at hstate
      have htaken : s.env2AT.isTaken = false := by
        cases hmailbox : s.env2AT with
        | taken m =>
          rw [hmailbox] at hmessage hstate
          cases m with
          | ready => exact absurd rfl hmessage
          | timeout => exact absurd rfl hstate.2
        | _ => rfl
      cases hopen : s.transaction.state with
      | idle => exact absurd hopen hstate.1
      | commandSent => exact .of_sent hcaller hempty hposting hmessage htaken hopen
      | readingResult => exact .of_reading hcaller hempty hposting hmessage htaken hopen
      | aborted => exact absurd hopen hi.not_aborted

/-- A call of `execute` is safe from the results of the calls before it, whatever the order of the
steps and the lines of the modem, exactly when no command is open as it begins: to discard the
result that waits is not enough. -/
theorem returnsOwn_iff (result : AtResult)
    (h : Transition.Reaches (step handled behind) (start result) s) (hcaller : s.caller = .idle) :
    ReturnsOwn handled behind s ↔ s.Quiet := by
  refine ⟨fun hown => ?_,returnsOwn_of_quiet⟩
  by_contra hquiet
  have hstep : s.step handled behind .discard =
      some ([.discarded],{ s with caller := .discarded,at2Env := false }) := by
    simp only [Session.step,if_pos hcaller]
  have hbegun : ¬({ s with caller := .discarded,at2Env := false } : Session).Quiet :=
    fun hq => hquiet ⟨hq.state,hq.posting,hq.message⟩
  obtain ⟨inputs,outputs,s',trace,command,returned,hinputs,hrun,htrace⟩ :=
    stale_of_not_quiet (inv_step (inv_of_reaches h) hstep) rfl rfl hbegun
  have hwhole := (Transition.run_cons_eq_some_iff hstep).mpr ⟨outputs,rfl,hrun⟩
  obtain ⟨c,hanswered⟩ := hown inputs _ s' returned hinputs hwhole (by simp [htrace])
  rw [List.flatten_cons,htrace,← List.append_assoc] at hanswered
  have hsplit : answered c returned = [.discarded,.issued c,.sent c,.echoed] ++
      [.stored returned,.returned returned] := rfl
  rw [hsplit] at hanswered
  cases List.append_inj_right' hanswered rfl

/-- A command has timed out, and is not cancelled yet: the next call can return its result. -/
theorem returnsOwn_iff_cancelled : ¬ReturnsOwn (fun _ => false) none
    ⟨.idle,.queued .timeout,false,false,⟨.commandSent,['A','T'],⟨.atOk,0⟩⟩⟩ := by
  refine mt (returnsOwn_iff ⟨.atOk,0⟩ ?_ rfl).mp (by decide)
  exact ⟨[.discard,.setCommand ['A','T'],.postReady,.take,.act,.timeout,.postTimeout],_,rfl⟩

/-- Every call so far has returned the result of its own command, and the one that may be open
owns what the thread does. -/
def Untimed (trace : List Observation) (s : Session) : Prop :=
  ∃ calls current, trace = List.flatMap (fun call : List Char × AtResult => answered call.1 call.2)
    calls ++ current ∧ (current = [] ∧ s.caller = .idle ∧ s.Quiet ∨ Owns current s)

theorem Owns.quiet {trace : List Observation} (howns : Owns trace s) (hidle : s.caller = .idle) :
    s.Quiet ∧ ∃ command result, trace = answered command result := by
  cases howns with
  | returned _ state posting free =>
    exact ⟨⟨.inl state,posting,by rw [free]; exact fun hm => by cases hm⟩,_,_,rfl⟩
  | discarded caller => cases hidle.symm.trans caller
  | issued caller => cases hidle.symm.trans caller
  | handedOver caller => cases hidle.symm.trans caller
  | sent caller => cases hidle.symm.trans caller
  | echoed caller => cases hidle.symm.trans caller
  | stored caller => cases hidle.symm.trans caller

theorem Owns.prefix {trace : List Observation} (howns : Owns trace s) :
    ∃ command result, trace <+: answered command result := by
  cases howns with
  | discarded => exact ⟨[],⟨.atOk,0⟩,_,rfl⟩
  | issued => exact ⟨_,⟨.atOk,0⟩,_,rfl⟩
  | handedOver => exact ⟨_,⟨.atOk,0⟩,_,rfl⟩
  | sent => exact ⟨_,⟨.atOk,0⟩,_,rfl⟩
  | echoed => exact ⟨_,⟨.atOk,0⟩,_,rfl⟩
  | stored => exact ⟨_,_,_,rfl⟩
  | returned => exact ⟨_,_,List.prefix_rfl⟩

theorem untimed_step {trace : List Observation} (hi : Untimed trace s) (htimeout : a ≠ .timeout)
    (h : s.step handled behind a = some (observed,s')) : Untimed (trace ++ observed) s' := by
  obtain ⟨calls,current,rfl,hcurrent⟩ := hi
  by_cases hdiscard : a = .discard
  · subst hdiscard
    have hcaller : s.caller = .idle := by
      by_contra hbusy
      simp [step,hbusy] at h
    simp only [step,if_pos hcaller] at h
    cases h
    rcases hcurrent with ⟨rfl,-,hquiet⟩ | howns
    · exact ⟨calls,_,by rw [List.append_nil],
        .inr (.discarded rfl ⟨hquiet.state,hquiet.posting,hquiet.message⟩ rfl)⟩
    · obtain ⟨hquiet,c,r,rfl⟩ := howns.quiet hcaller
      exact ⟨calls ++ [(c,r)],[.discarded],by simp,
        .inr (.discarded rfl ⟨hquiet.state,hquiet.posting,hquiet.message⟩ rfl)⟩
  · rcases hcurrent with ⟨rfl,hidle,hquiet⟩ | howns
    · refine ⟨calls,[],?_⟩
      cases a with
      | line text =>
        obtain ⟨rfl,rfl⟩ := hquiet.line h
        exact ⟨List.append_nil _,.inl ⟨rfl,hidle,hquiet⟩⟩
      | take =>
        obtain ⟨rfl,hafter,hcaller,-⟩ := hquiet.message_step (.inl rfl) h
        exact ⟨List.append_nil _,.inl ⟨rfl,hcaller.trans hidle,hafter⟩⟩
      | act =>
        obtain ⟨rfl,hafter,hcaller,-⟩ := hquiet.message_step (.inr rfl) h
        exact ⟨List.append_nil _,.inl ⟨rfl,hcaller.trans hidle,hafter⟩⟩
      | discard => exact absurd rfl hdiscard
      | _ => simp [step,hidle,hquiet.posting] at h
    · exact ⟨calls,current ++ observed,List.append_assoc _ _ _,
        .inr (owns_step hdiscard htimeout howns h)⟩

/-- As long as no call times out, what is observed is one call after the other, each with the result
of its own command. -/
theorem run_untimed {result : AtResult} {inputs : List Action} (hinputs : .timeout ∉ inputs)
    {outputs : List (List Observation)}
    (hrun : Transition.run (step handled behind) (start result) inputs = some (outputs,s')) :
    ∃ (calls : List (List Char × AtResult)) (command : List Char) (last : AtResult)
      (current : List Observation),
      outputs.flatten = calls.flatMap (fun call => answered call.1 call.2) ++ current ∧
        current <+: answered command last := by
  have hstart : Untimed [] (start result) :=
    ⟨[],[],rfl,.inl ⟨rfl,rfl,.inl rfl,rfl,fun hm => by cases hm⟩⟩
  have hok : Transition.Meets (step handled behind) (fun _ a => a ≠ .timeout) (start result)
      inputs :=
    Transition.meets_of_forall_mem (fun a ha _ => ne_of_mem_of_not_mem ha hinputs) _
  obtain ⟨calls,current,htrace,hcurrent⟩ := Transition.run_observes (I := Untimed)
    (fun _ _ _ _ _ hi hok hstep => untimed_step hi hok hstep) inputs _ [] hstart hok hrun
  rcases hcurrent with ⟨rfl,-⟩ | howns
  · exact ⟨calls,[],⟨.atOk,0⟩,[],htrace,List.nil_prefix⟩
  · obtain ⟨c,r,hpart⟩ := howns.prefix
    exact ⟨calls,c,r,current,htrace,hpart⟩

theorem run_untimed_call : ∃ (calls : List (List Char × AtResult)) (command : List Char)
    (last : AtResult) (current : List Observation),
      (Transition.run (step (fun _ => false) none) (start ⟨.atError,0⟩)
        [.discard,.setCommand ['A','T'],.postReady,.take,.act,.line ['A','T'],.line ['O','K'],
          .postResult,.getResult,.discard]).map (fun reached => reached.1.flatten) =
        some (calls.flatMap (fun call => answered call.1 call.2) ++ current) ∧
        current <+: answered command last := by
  have hrun : Transition.run (step (fun _ => false) none) (start ⟨.atError,0⟩)
      [.discard,.setCommand ['A','T'],.postReady,.take,.act,.line ['A','T'],.line ['O','K'],
        .postResult,.getResult,.discard] =
      some ([[.discarded],[.issued ['A','T']],[],[],[.sent ['A','T']],[.echoed],
        [.stored ⟨.atOk,0⟩],[],[.returned ⟨.atOk,0⟩],[.discarded]],
        ⟨.discarded,.free,false,false,⟨.idle,['A','T'],⟨.atOk,0⟩⟩⟩) := by decide
  obtain ⟨calls,command,last,current,htrace,hpart⟩ := run_untimed (by decide) hrun
  refine ⟨calls,command,last,current,?_,hpart⟩
  rw [hrun,Option.map_some,htrace]

end Session

end Pyrn.Modem
