import Pyrn.Framework.CString

/-!
# The line reader of the AT interface

`ATCommandsInterface::tryReadLine` cuts what the modem sends into lines, in a buffer that it moves
to the front with `memmove`. The buffer is a memory object here: an access outside it is `none`.
-/

namespace Pyrn.Modem

/-- `AT_INPUT_BUF_SIZE`. -/
def inputBufSize : Nat := 192

/-- `NET_INTERRUPTED`. -/
def netInterrupted : Int := 10

def nul : Char := '\x00'
def cr : Char := '\r'
def lf : Char := '\n'
def gd : Char := '>'

/-- What the reader hands on: a line, or the prompt of a data entry. -/
inductive Event
  | line (text : List Char)
  | prompt
  deriving DecidableEq, Repr

/-- How an event has been processed: data may have been sent, with `sendData`, and the return code
may not be `OK`. -/
inductive Answer
  | kept
  | sent
  | failed (ret : Int)
  deriving DecidableEq, Repr

/-- What processes the events, with `m_inputBuf` behind it. A line that is kept may be cut at a
colon; sending clears the buffer. -/
structure LineProcessor (κ : Type) where
  answer : κ → Event → Answer × κ
  leaves : κ → Event → List Char → List Char
  length_leaves : ∀ k event cells, (leaves k event cells).length = cells.length
  leaves_line : ∀ k text cells, (answer k (.line text)).1 = .kept →
    (leaves k (.line text) cells).drop text.length = cells.drop text.length
  leaves_prompt : ∀ k cells, (answer k .prompt).1 = .kept → leaves k .prompt cells = cells
  leaves_sent : ∀ k event cells, (answer k event).1 = .sent → cells ≠ [] →
    (leaves k event cells).head? = some nul

/-- A processor that keeps a record of what it gets. -/
def recorder : LineProcessor (List Event) where
  answer record event := (.kept,record ++ [event])
  leaves _ _ cells := cells
  length_leaves _ _ _ := rfl
  leaves_line _ _ _ _ := rfl
  leaves_prompt _ _ _ := rfl
  leaves_sent _ _ _ h _ := by cases h

/-- `m_inputBuf`, `m_inputPos` and the static `lineDetected` of `tryReadLine`. -/
structure Reader where
  inputBuf : List Char
  inputPos : Int
  lineDetected : Bool
  deriving DecidableEq, Repr

/-- How an iteration of the loop ends: with `lineProcessed`, without it, or with a `return`. -/
inductive Pass
  | processed
  | notProcessed
  | returned (ret : Int)
  deriving DecidableEq, Repr

namespace Reader

/-- Move what lies behind the first `n` characters, with its terminator, to the front. -/
def discard (s : Reader) (n : Nat) : Option Reader := do
  let moved ← CString.memmove s.inputBuf n (s.inputPos + 1 - n)
  return { s with inputBuf := moved,inputPos := s.inputPos - n }

/-- Behind a line, unless `sendData` has discarded everything. -/
def discardLine (n : Nat) (s : Reader) : Option Reader :=
  if 0 < s.inputPos then s.discard n else some s

/-- What becomes of the buffer when an event has been processed. -/
def settle (s : Reader) (cells : List Char) (move : Reader → Option Reader) :
    Answer → Option (Pass × Reader)
  | .failed ret => do
      let cleared ← Buffer.store cells 0 [nul]
      return (.returned ret,⟨cleared,0,false⟩)
  | .sent => return (.processed,⟨cells,0,false⟩)
  | .kept => do
      let moved ← move { s with inputBuf := cells }
      return (.processed,{ moved with lineDetected := false })

variable {κ : Type}

/-- `processReadLine`, and the shift of what follows the line. -/
def processLine (P : LineProcessor κ) (s : Reader) (k : κ) (n : Nat) :
    Option (Pass × Reader × κ) := do
  let event := Event.line (CString.string nul s.inputBuf)
  let (pass,s) ← s.settle (P.leaves k event s.inputBuf) (discardLine n) (P.answer k event).1
  return (pass,s,(P.answer k event).2)

/-- `processEntryPrompt`. -/
def processPrompt (P : LineProcessor κ) (s : Reader) (k : κ) : Option (Pass × Reader × κ) := do
  let (pass,s) ← s.settle (P.leaves k .prompt s.inputBuf) some (P.answer k .prompt).1
  return (pass,s,(P.answer k .prompt).2)

/-- The part of an iteration that looks for a new line. -/
def lookForStart (P : LineProcessor κ) (s : Reader) (k : κ) : Option (Pass × Reader × κ) := do
  match ← CString.strchr nul cr s.inputBuf with
  | some 0 =>
      if 3 ≤ s.inputPos then
        if (← s.inputBuf[1]?) = lf then
          -- the start of a line, or the end of one that has not been processed
          let lineDetected := decide ((← s.inputBuf[2]?) ≠ cr)
          return (.notProcessed,{ ← s.discard 2 with lineDetected := lineDetected },k)
        else return (.notProcessed,← s.discard 1,k)
      else return (.notProcessed,s,k)
  | some crPos =>
      let cut ← Buffer.store s.inputBuf crPos [nul]
      if 1 ≤ s.inputPos - crPos then
        let lfOff := if (← cut[crPos + 1]?) = lf then 1 else 0
        processLine P { s with inputBuf := cut } k (crPos + lfOff + 1)
      else processLine P { s with inputBuf := cut } k (crPos + 1)
  | none =>
      if (← s.inputBuf[0]?) = lf then return (.notProcessed,← s.discard 1,k)
      else return (.notProcessed,s,k)

/-- The part of an iteration that looks for the end of a line. -/
def lookForEnd (P : LineProcessor κ) (s : Reader) (k : κ) : Option (Pass × Reader × κ) := do
  let greaterThan ← CString.strchr nul gd s.inputBuf
  match ← CString.strchr nul cr s.inputBuf with
  | some crPos =>
      if 2 ≤ s.inputPos - crPos then
        if (← s.inputBuf[crPos + 1]?) = lf then
          let cut ← Buffer.store s.inputBuf crPos [nul]
          processLine P { s with inputBuf := cut } k (crPos + 2)
        else return (.notProcessed,{ ← s.discard (crPos + 1) with lineDetected := false },k)
      else return (.notProcessed,s,k)
  | none =>
      match greaterThan with
      | some gdPos =>
          if 2 ≤ s.inputPos - gdPos then
            if (← s.inputBuf[gdPos + 1]?) = ' ' then
              let cut ← Buffer.store s.inputBuf gdPos [nul]
              processPrompt P (← { s with inputBuf := cut }.discard (gdPos + 1)) k
            else return (.notProcessed,{ ← s.discard (gdPos + 1) with lineDetected := false },k)
          else return (.notProcessed,s,k)
      | none => return (.notProcessed,s,k)

/-- One iteration of the loop over the incoming lines. -/
def iteration (P : LineProcessor κ) (s : Reader) (k : κ) : Option (Pass × Reader × κ) :=
  if s.lineDetected = true then lookForEnd P s k
  else do
    let (pass,s,k) ← lookForStart P s k
    if s.lineDetected = true then lookForEnd P s k else return (pass,s,k)

/-- The loop, and the check behind it for a line that is too long. -/
def processLines (P : LineProcessor κ) : Nat → Reader → κ → Option (Int × Reader × κ)
  | 0, _, _ => none
  | fuel + 1, s, k => do
      let (pass,s,k) ← iteration P s k
      match pass with
      | .returned ret => return (ret,s,k)
      | .processed => processLines P fuel s k
      | .notProcessed =>
          if s.inputPos = inputBufSize - 1 then
            let cleared ← Buffer.store s.inputBuf 0 [nul]
            return (0,⟨cleared,0,false⟩,k)
          else return (0,s,k)

/-- `tryReadLine`, with the characters that are available in the stream; what it does not read
stays there. Nothing is available when the wait has been interrupted. -/
def tryReadLine (P : LineProcessor κ) (s : Reader) (available : List Char) (k : κ) :
    Option (Int × Reader × List Char × κ) :=
  match available with
  | [] => some (netInterrupted,s,[],k)
  | _ => do
      let room := inputBufSize - 1 - s.inputPos.toNat
      let read := available.take room
      let filled ← Buffer.store s.inputBuf s.inputPos read
      let ended ← Buffer.store filled (s.inputPos + read.length) [nul]
      let (ret,s,k) ← processLines P inputBufSize
        { s with inputBuf := ended,inputPos := s.inputPos + read.length } k
      return (ret,s,available.drop room,k)

end Reader

/-- The reader, what the stream holds for it, and the state of what processes the lines. -/
structure Reading (κ : Type) where
  reader : Reader
  unread : List Char
  state : κ

namespace Reading

variable {κ : Type} (P : LineProcessor κ)

/-- A call of the reader, when more characters have arrived. -/
def step (r : Reading κ) (arrived : List Char) : Option (Reading κ) := do
  let (_,reader,unread,state) ← r.reader.tryReadLine P (r.unread ++ arrived) r.state
  return ⟨reader,unread,state⟩

/-- The loop of `process`. -/
def run (r : Reading κ) (arrivals : List (List Char)) : Option (Reading κ) :=
  arrivals.foldlM (step P) r

/-- What `process` starts with: it sets `m_inputPos` only. -/
def start (inputBuf : List Char) (lineDetected : Bool) (state : κ) : Reading κ :=
  ⟨⟨inputBuf,0,lineDetected⟩,[],state⟩

end Reading

end Pyrn.Modem
