import Mathlib.Data.List.TakeWhile
import Pyrn.Framework.Printf
import Pyrn.Modem.LineStream
import Pyrn.Modem.SimCheck

/-!
# The lines of a transaction

`ATCommandsInterface::processReadLine`: the echo of the command opens the answer, lines in front of
it are unsolicited codes, and a result code closes it.
-/

namespace Pyrn.Modem

/-- `m_transactionState`. -/
inductive TransactionState
  | idle
  | commandSent
  | readingResult
  | aborted
  deriving DecidableEq, Repr

/-- What the processing thread knows of the command that is executed. -/
structure Transaction where
  state : TransactionState
  command : List Char
  result : AtResult
  deriving DecidableEq, Repr

/-- What a line is taken for. -/
inductive LineEffect
  | echo
  | event (code : List Char) (data : Option (List Char))
  | result
  | unprocessed
  | ignored
  deriving DecidableEq, Repr

def isBlank (c : Char) : Bool := c = ' ' || ('\t' ≤ c && c ≤ '\r')

def isDigit (c : Char) : Bool := '0' ≤ c && c ≤ '9'

/-- The digits of a number, as `%d` takes them; a number that does not fit is cut off. -/
def scanDigits (negative : Bool) (text : List Char) : Option Int :=
  let digits := text.takeWhile isDigit
  let number := Printf.readDigits (fun c => c.toNat - 48) 10 0 digits
  if digits = [] then none
  else if negative = true then some (-(min number (2 ^ 31) : Nat))
  else some (min number (2 ^ 31 - 1) : Nat)

/-- The conversion `%d` of `sscanf`. -/
def scanInt (text : List Char) : Option Int :=
  match text.dropWhile isBlank with
  | '-' :: digits => scanDigits true digits
  | '+' :: digits => scanDigits false digits
  | digits => scanDigits false digits

/-- The scan from an offset of the line on. An offset behind its terminator reads what lies
there. -/
def scanCode (behind : Option Int) (offset : Nat) (line : List Char) : Option Int :=
  if offset ≤ line.length then scanInt (line.drop offset) else behind

/-- The result codes. The number of a `+CMS ERROR:` is looked for one character too late. -/
def resultLine (behind : Option Int) (line : List Char) : Option ResultLine :=
  if line = "OK".toList then some .ok
  else if line = "ERROR".toList then some .error
  else if "CONNECT".toList.isPrefixOf line = true then some .connect
  else if line = "COMMAND NOT SUPPORT".toList then some .commandNotSupport
  else if "+CME ERROR:".toList.isPrefixOf line = true then
    some (.cmeError (scanCode behind 12 line))
  else if "+CMS ERROR:".toList.isPrefixOf line = true then
    some (.cmsError (scanCode behind 13 line))
  else none

/-- The identifier of an unsolicited code, and what comes behind the colon. -/
def splitCode (line : List Char) : List Char × Option (List Char) :=
  match line.dropWhile (· ≠ ':') with
  | [] => (line,none)
  | _ :: ' ' :: data => (line.takeWhile (· ≠ ':'),some data)
  | _ :: data => (line.takeWhile (· ≠ ':'),some data)

namespace Transaction

/-- `processReadLine`; `handled` says which codes the registered handlers take. -/
def processReadLine (handled : List Char → Bool) (behind : Option Int) (t : Transaction)
    (line : List Char) : LineEffect × Transaction :=
  if t.state = .commandSent ∧ t.command = line then
    (.echo,{ t with state := .readingResult })
  else if (t.state = .idle ∨ t.state = .commandSent) ∧ handled (splitCode line).1 = true then
    (.event (splitCode line).1 (splitCode line).2,t)
  else if t.state = .readingResult then
    match resultLine behind line with
    | some code =>
        (.result,{ t with state := .idle,result := Modem.processReadLine t.result code })
    | none => (.unprocessed,t)
  else (.ignored,t)

end Transaction

theorem isDigit_digitChar : ∀ d < 10, isDigit (Nat.digitChar d) = true := by decide

theorem digit_value : ∀ d < 10, (Nat.digitChar d).toNat - 48 = d := by decide

theorem isBlank_digitChar : ∀ d < 10, isBlank (Nat.digitChar d) = false := by decide

theorem sign_digitChar : ∀ d < 10, Nat.digitChar d ≠ '-' ∧ Nat.digitChar d ≠ '+' := by decide

theorem all_digits (width value : Nat) : ∀ c ∈ Printf.digits 10 width value, isDigit c = true := by
  intro c hc
  obtain ⟨k,-,rfl⟩ := Printf.mem_digits.mp hc
  exact isDigit_digitChar _ (Nat.mod_lt _ (by decide))

/-- A number in digits is scanned as it is. -/
theorem scanInt_digits {width value : Nat} (hwidth : 0 < width)
    (hfits : value % 10 ^ width < 2 ^ 31) :
    scanInt (Printf.digits 10 width value) = some ((value % 10 ^ width : Nat) : Int) := by
  obtain ⟨w,rfl⟩ := Nat.exists_eq_add_of_lt hwidth
  rw [Nat.zero_add] at hfits ⊢
  have hread := @Printf.readDigits_digits (fun c => c.toNat - 48) 10 id (by decide) digit_value
    (w + 1) value
  rw [List.map_id] at hread
  have hall := List.takeWhile_eq_self_iff.mpr (all_digits (w + 1) value)
  have hne : Printf.digits 10 (w + 1) value ≠ [] := by
    rw [Printf.digits_succ_eq_cons]
    exact List.cons_ne_nil _ _
  have hscan : scanDigits false (Printf.digits 10 (w + 1) value) =
      some ((value % 10 ^ (w + 1) : Nat) : Int) := by
    have hmin : min (value % 10 ^ (w + 1)) (2 ^ 31 - 1) = value % 10 ^ (w + 1) :=
      Nat.min_eq_left (by omega)
    simp only [scanDigits,hall,if_neg hne,hread,hmin,Bool.false_eq_true,if_false]
  have hfirst : value / 10 ^ w % 10 < 10 := Nat.mod_lt _ (by decide)
  obtain ⟨hminus,hplus⟩ := sign_digitChar _ hfirst
  rw [← hscan,scanInt,Printf.digits_succ_eq_cons,
    List.dropWhile_cons_of_neg (by rw [isBlank_digitChar _ hfirst]; exact Bool.false_ne_true)]
  split
  · rename_i heq
    exact absurd (List.cons.inj heq).1 hminus
  · rename_i heq
    exact absurd (List.cons.inj heq).1 hplus
  · rfl

theorem scanInt_toDigits {number : Nat} (hfits : number < 2 ^ 31) :
    scanInt (Nat.toDigits 10 number) = some (number : Int) := by
  have hlength : 0 < (Nat.toDigits 10 number).length := Nat.length_toDigits_pos
  have hvalue : number % 10 ^ (Nat.toDigits 10 number).length = number :=
    Nat.mod_eq_of_lt ((Nat.length_toDigits_le_iff (by decide) hlength).mp (Nat.le_refl _))
  rw [Printf.toDigits_eq_digits (by decide) number,scanInt_digits hlength (by rwa [hvalue]),
    hvalue]

/-- Behind the first digit of a number the rest of it is found, if there is one. -/
theorem scanInt_tail {number : Nat} (hfits : number < 2 ^ 31) :
    scanInt ((Nat.toDigits 10 number).drop 1) =
      if number < 10 then none
      else some ((number % 10 ^ ((Nat.toDigits 10 number).length - 1) : Nat) : Int) := by
  have hlength : 0 < (Nat.toDigits 10 number).length := Nat.length_toDigits_pos
  obtain ⟨w,hw⟩ := Nat.exists_eq_add_of_lt hlength
  have hdigits := @Printf.toDigits_eq_digits 10 (by decide) number
  have htail : (Nat.toDigits 10 number).drop 1 = Printf.digits 10 w number := by
    rw [hdigits,hw,Nat.zero_add,Printf.digits_succ_eq_cons]
    rfl
  have hone : number < 10 ↔ w = 0 := by
    have hle := Nat.length_toDigits_le_iff (b := 10) (n := number) (k := 1) (by decide)
      (by decide)
    rw [pow_one] at hle
    rw [← hle]
    omega
  rw [htail]
  split_ifs with hsmall
  · rw [hone.mp hsmall]
    rfl
  · have hpos : 0 < w := Nat.pos_of_ne_zero fun h => hsmall (hone.mpr h)
    have hcount : (Nat.toDigits 10 number).length - 1 = w := by omega
    rw [scanInt_digits hpos (Nat.lt_of_le_of_lt (Nat.mod_le _ _) hfits),hcount]

/-- What begins with a plus sign can only be an error with a number. -/
theorem resultLine_plus (behind : Option Int) (rest : List Char) :
    resultLine behind ('+' :: rest) =
      if "+CME ERROR:".toList.isPrefixOf ('+' :: rest) = true then
        some (.cmeError (scanCode behind 12 ('+' :: rest)))
      else if "+CMS ERROR:".toList.isPrefixOf ('+' :: rest) = true then
        some (.cmsError (scanCode behind 13 ('+' :: rest)))
      else none := by
  have hhead {text : List Char} (h : text.head? ≠ some '+') : '+' :: rest ≠ text := by
    rintro rfl
    exact h rfl
  rw [resultLine,if_neg (hhead (by decide)),if_neg (hhead (by decide)),
    if_neg (show ¬"CONNECT".toList.isPrefixOf ('+' :: rest) = true from Bool.false_ne_true),
    if_neg (hhead (by decide))]

theorem resultLine_cme {number : Nat} (hfits : number < 2 ^ 31) (behind : Option Int) :
    resultLine behind ("+CME ERROR: ".toList ++ Nat.toDigits 10 number) =
      some (.cmeError (some number)) := by
  have hcode : scanCode behind 12 ("+CME ERROR: ".toList ++ Nat.toDigits 10 number) =
      some (number : Int) := by
    have hinside : 12 ≤ ("+CME ERROR: ".toList ++ Nat.toDigits 10 number).length := by
      rw [List.length_append]
      exact Nat.le_add_right 12 _
    rw [scanCode,if_pos hinside,← scanInt_toDigits hfits]
    rfl
  have hline := resultLine_plus behind ("CME ERROR: ".toList ++ Nat.toDigits 10 number)
  rw [← hcode]
  exact hline

theorem resultLine_cms {number : Nat} (hfits : number < 2 ^ 31) (behind : Option Int) :
    resultLine behind ("+CMS ERROR: ".toList ++ Nat.toDigits 10 number) =
      some (.cmsError (if number < 10 then none
        else some ((number % 10 ^ ((Nat.toDigits 10 number).length - 1) : Nat) : Int))) := by
  have hlength : 0 < (Nat.toDigits 10 number).length := Nat.length_toDigits_pos
  have hcode : scanCode behind 13 ("+CMS ERROR: ".toList ++ Nat.toDigits 10 number) =
      if number < 10 then none
      else some ((number % 10 ^ ((Nat.toDigits 10 number).length - 1) : Nat) : Int) := by
    have hinside : 13 ≤ ("+CMS ERROR: ".toList ++ Nat.toDigits 10 number).length := by
      rw [List.length_append]
      exact Nat.add_le_add_left hlength 12
    rw [scanCode,if_pos hinside,← scanInt_tail hfits]
    rfl
  have hline := resultLine_plus behind ("CMS ERROR: ".toList ++ Nat.toDigits 10 number)
  rw [← hcode]
  exact hline

namespace Transaction

variable {handled : List Char → Bool} {behind : Option Int} {t : Transaction}

theorem processReadLine_result (ht : t.state = .readingResult) {line : List Char}
    {code : ResultLine} (hcode : resultLine behind line = some code) :
    t.processReadLine handled behind line =
      (.result,{ t with state := .idle,result := Modem.processReadLine t.result code }) := by
  have hnotSent : ¬(t.state = .commandSent ∧ t.command = line) := by
    rintro ⟨hsent,-⟩
    rw [ht] at hsent
    cases hsent
  have hnotIdle : ¬((t.state = .idle ∨ t.state = .commandSent) ∧
      handled (splitCode line).1 = true) := by
    rintro ⟨hidle | hsent,-⟩
    · rw [ht] at hidle
      cases hidle
    · rw [ht] at hsent
      cases hsent
  rw [processReadLine,if_neg hnotSent,if_neg hnotIdle,if_pos ht,hcode]

/-- The number of a mobile equipment error is stored. That of a SIM error loses its first digit,
and one that has a single digit leaves the number of an earlier result. -/
theorem processReadLine_errors (handled : List Char → Bool) (behind : Option Int)
    (ht : t.state = .readingResult) {number : Nat} (hfits : number < 2 ^ 31) :
    t.processReadLine handled behind ("+CME ERROR: ".toList ++ Nat.toDigits 10 number) =
        (.result,{ t with state := .idle,result := ⟨.atCmeError,number⟩ }) ∧
      t.processReadLine handled behind ("+CMS ERROR: ".toList ++ Nat.toDigits 10 number) =
        (.result,{ t with
          state := .idle
          result := ⟨.atCmsError,if number < 10 then t.result.code
            else (number % 10 ^ ((Nat.toDigits 10 number).length - 1) : Nat)⟩ }) := by
  refine ⟨processReadLine_result ht (resultLine_cme hfits behind),?_⟩
  rw [processReadLine_result ht (resultLine_cms hfits behind),Modem.processReadLine]
  split_ifs <;> rfl

theorem processReadLine_errors_sim :
    (⟨.readingResult,"AT+CMGS=1".toList,⟨.atOk,0⟩⟩ : Transaction).processReadLine
        (fun _ => false) none ("+CME ERROR: ".toList ++ Nat.toDigits 10 310) =
        (.result,⟨.idle,"AT+CMGS=1".toList,⟨.atCmeError,310⟩⟩) ∧
      (⟨.readingResult,"AT+CMGS=1".toList,⟨.atOk,0⟩⟩ : Transaction).processReadLine
        (fun _ => false) none ("+CMS ERROR: ".toList ++ Nat.toDigits 10 310) =
        (.result,⟨.idle,"AT+CMGS=1".toList,⟨.atCmsError,10⟩⟩) :=
  processReadLine_errors _ _ rfl (by decide)

end Transaction

end Pyrn.Modem
