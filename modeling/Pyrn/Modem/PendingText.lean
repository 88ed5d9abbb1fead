import Pyrn.Modem.ReadLine

/-!
# The text that waits in the input buffer

What the line reader does, told by the characters that have been received and not handed on. The
buffer holds them in front of a terminator, whatever the modem sends and however the lines are
processed, so that no access leaves it.
-/

namespace Pyrn.Modem

/-- The characters that wait, and whether they belong to a line whose start has been seen. -/
structure Pending where
  text : List Char
  lineDetected : Bool
  deriving DecidableEq, Repr

/-- What the reader finds in the text that waits. -/
inductive Look
  | waits (p : Pending)
  | found (event : Event) (rest : List Char)
  deriving DecidableEq, Repr

namespace Pending

/-- The search for a new line. -/
def lookForStart (text : List Char) : Look :=
  match CString.find nul cr text with
  | some 0 =>
      if 3 ≤ text.length then
        if text.getD 1 nul = lf then .waits ⟨text.drop 2,decide (text.getD 2 nul ≠ cr)⟩
        else .waits ⟨text.drop 1,false⟩
      else .waits ⟨text,false⟩
  | some crPos =>
      .found (.line (text.take crPos))
        (text.drop (crPos + (if text.getD (crPos + 1) nul = lf then 1 else 0) + 1))
  | none => if text.getD 0 nul = lf then .waits ⟨text.drop 1,false⟩ else .waits ⟨text,false⟩

/-- The search for the end of a line. -/
def lookForEnd (text : List Char) : Look :=
  match CString.find nul cr text with
  | some crPos =>
      if crPos + 2 ≤ text.length then
        if text.getD (crPos + 1) nul = lf then
          .found (.line (text.take crPos)) (text.drop (crPos + 2))
        else .waits ⟨text.drop (crPos + 1),false⟩
      else .waits ⟨text,true⟩
  | none =>
      match CString.find nul gd text with
      | some gdPos =>
          if gdPos + 2 ≤ text.length then
            if text.getD (gdPos + 1) nul = ' ' then .found .prompt (text.drop (gdPos + 1))
            else .waits ⟨text.drop (gdPos + 1),false⟩
          else .waits ⟨text,true⟩
      | none => .waits ⟨text,true⟩

def look (p : Pending) : Look :=
  if p.lineDetected = true then lookForEnd p.text
  else
    match lookForStart p.text with
    | .waits q => if q.lineDetected = true then lookForEnd q.text else .waits q
    | .found event rest => .found event rest

variable {κ : Type} (P : LineProcessor κ)

/-- What an iteration makes of it. -/
def outcome (k : κ) : Look → Pass × Pending × κ
  | .waits p => (.notProcessed,p,k)
  | .found event rest =>
      match (P.answer k event).1 with
      | .kept => (.processed,⟨rest,false⟩,(P.answer k event).2)
      | .sent => (.processed,⟨[],false⟩,(P.answer k event).2)
      | .failed ret => (.returned ret,⟨[],false⟩,(P.answer k event).2)

/-- A text that fills the buffer will never be processed. -/
def clear (p : Pending) : Pending := if p.text.length = inputBufSize - 1 then ⟨[],false⟩ else p

def processLines : Nat → Pending → κ → Option (Int × Pending × κ)
  | 0, _, _ => none
  | fuel + 1, p, k =>
      match outcome P k p.look with
      | (.returned ret,p,k) => some (ret,p,k)
      | (.processed,p,k) => processLines fuel p k
      | (.notProcessed,p,k) => some (0,p.clear,k)

/-- A call of the reader. -/
def read (p : Pending) (available : List Char) (k : κ) :
    Option (Int × Pending × List Char × κ) :=
  match available with
  | [] => some (netInterrupted,p,[],k)
  | _ =>
      let room := inputBufSize - 1 - p.text.length
      (processLines P inputBufSize ⟨p.text ++ available.take room,p.lineDetected⟩ k).map
        fun (ret,p,k) => (ret,p,available.drop room,k)

/-- An event takes at least one character out of the text. -/
theorem lookForStart_found {text rest : List Char} {event : Event}
    (h : lookForStart text = .found event rest) : rest.length < text.length := by
  unfold lookForStart at h
  split at h
  · split_ifs at h
  · rename_i crPos _ hfind
    obtain ⟨-,rfl⟩ := Look.found.inj h
    have hlt := CString.find_lt hfind
    rw [List.length_drop]
    split_ifs <;> omega
  · split_ifs at h

theorem lookForEnd_found {text rest : List Char} {event : Event}
    (h : lookForEnd text = .found event rest) : rest.length < text.length := by
  unfold lookForEnd at h
  split at h
  · split_ifs at h
    obtain ⟨-,rfl⟩ := Look.found.inj h
    rw [List.length_drop]
    omega
  · split at h
    · split_ifs at h
      obtain ⟨-,rfl⟩ := Look.found.inj h
      rw [List.length_drop]
      omega
    · cases h

theorem lookForStart_waits {text : List Char} {q : Pending} (h : lookForStart text = .waits q) :
    q.text.length ≤ text.length := by
  unfold lookForStart at h
  split at h
  · split_ifs at h <;> injection h with h <;> subst h <;> simp
  · cases h
  · split_ifs at h <;> injection h with h <;> subst h <;> simp

theorem look_found {p : Pending} {event : Event} {rest : List Char}
    (h : p.look = .found event rest) : rest.length < p.text.length := by
  unfold look at h
  split_ifs at h with hdetected
  · exact lookForEnd_found h
  cases hstart : lookForStart p.text with
  | found event' rest' =>
    rw [hstart] at h
    obtain ⟨rfl,rfl⟩ := Look.found.inj h
    exact lookForStart_found hstart
  | waits q =>
    rw [hstart] at h
    dsimp only at h
    split_ifs at h
    exact Nat.lt_of_lt_of_le (lookForEnd_found h) (lookForStart_waits hstart)

/-- The loop over the lines ends. -/
theorem processLines_ends (fuel : Nat) {p : Pending} (k : κ) (hfuel : p.text.length < fuel) :
    ∃ ret q k', processLines P fuel p k = some (ret,q,k') := by
  induction fuel generalizing p k with
  | zero => exact absurd hfuel (Nat.not_lt_zero _)
  | succ fuel ih =>
    rw [processLines]
    cases hlook : p.look with
    | waits q => exact ⟨_,_,_,rfl⟩
    | found event rest =>
      have hrest := look_found hlook
      rw [outcome]
      cases (P.answer k event).1 with
      | kept => exact ih _ (by simp only; omega)
      | sent => exact ih _ (by simp only [List.length_nil]; omega)
      | failed ret => exact ⟨_,_,_,rfl⟩

end Pending

/-- The buffer holds the text that waits, in front of a terminator. -/
structure Holds (s : Reader) (p : Pending) : Prop where
  size : s.inputBuf.length = inputBufSize
  pos : s.inputPos = p.text.length
  detected : s.lineDetected = p.lineDetected
  terminated : p.text ++ [nul] <+: s.inputBuf

namespace Holds

variable {κ : Type} {P : LineProcessor κ} {s : Reader} {p : Pending} {text : List Char} {k : κ}

theorem length_lt (h : Holds s p) : p.text.length < inputBufSize := by
  have hle := h.terminated.length_le
  rw [List.length_append,List.length_singleton,h.size] at hle
  exact hle

theorem getElem? {i : Nat} (h : Holds s p) (hi : i ≤ p.text.length) :
    s.inputBuf[i]? = some (p.text.getD i nul) :=
  CString.getElem?_of_prefix h.terminated hi

theorem strchr {c : Char} (h : Holds s p) (hc : c ≠ nul) :
    CString.strchr nul c s.inputBuf = some (CString.find nul c p.text) :=
  CString.strchr_of_prefix hc h.terminated

/-- What is discarded is taken from the front of the text. -/
theorem discard {n : Nat} (h : Holds s p) (hn : n ≤ p.text.length) :
    ∃ s', s.discard n = some s' ∧ Holds s' ⟨p.text.drop n,p.lineDetected⟩ := by
  have hcount : s.inputPos + 1 - n = ((p.text.drop n).length : Int) + 1 := by
    rw [h.pos,List.length_drop]
    omega
  obtain ⟨moved,hmoved,hlength,hrest⟩ :=
    CString.memmove_of_prefix (CString.drop_prefix h.terminated hn) hcount
  refine ⟨{ s with inputBuf := moved,inputPos := s.inputPos - n },?_,?_⟩
  · rw [Reader.discard,hmoved]
    rfl
  · refine ⟨hlength.trans h.size,?_,h.detected,hrest⟩
    simp only
    rw [h.pos,List.length_drop]
    omega

/-- An iteration that has the outcome, with a buffer that holds what is left. -/
def Simulates (result : Option (Pass × Reader × κ)) (outcome : Pass × Pending × κ) : Prop :=
  ∃ s', result = some (outcome.1,s',outcome.2.2) ∧ Holds s' outcome.2.1

theorem cleared {cells : List Char} (hsize : cells.length = inputBufSize) :
    ∃ cells', Buffer.store cells 0 [nul] = some cells' ∧
      Holds ⟨cells',0,false⟩ ⟨[],false⟩ := by
  have hfits : 0 + [nul].length ≤ cells.length := by
    rw [hsize]
    decide
  refine ⟨_,Buffer.store_of_le hfits,(Buffer.splice_length hfits).trans hsize,rfl,rfl,?_⟩
  exact ⟨cells.drop 1,rfl⟩

/-- What is handed on, and what becomes of the buffer, when the rest of the text is moved up. -/
theorem settle (event : Event) (rest : List Char) (move : Reader → Option Reader)
    (hsize : s.inputBuf.length = inputBufSize)
    (hmove : (P.answer k event).1 = .kept → ∃ s',
      move { s with inputBuf := P.leaves k event s.inputBuf } = some s' ∧
        Holds { s' with lineDetected := false } ⟨rest,false⟩) :
    ∃ s', s.settle (P.leaves k event s.inputBuf) move (P.answer k event).1 =
        some ((Pending.outcome P k (.found event rest)).1,s') ∧
      Holds s' (Pending.outcome P k (.found event rest)).2.1 := by
  have hlength : (P.leaves k event s.inputBuf).length = inputBufSize :=
    (P.length_leaves k event s.inputBuf).trans hsize
  have hsent := P.leaves_sent k event s.inputBuf
  rw [Pending.outcome]
  cases hanswer : (P.answer k event).1 with
  | kept =>
    obtain ⟨s',hs',hrest⟩ := hmove hanswer
    exact ⟨_,by rw [Reader.settle,hs']; rfl,hrest⟩
  | failed ret =>
    obtain ⟨cells',hstore,hholds⟩ := cleared hlength
    exact ⟨_,by rw [Reader.settle,hstore]; rfl,hholds⟩
  | sent =>
    have hne : s.inputBuf ≠ [] := by
      intro hnil
      rw [hnil] at hsize
      cases hsize
    refine ⟨_,rfl,hlength,rfl,rfl,?_⟩
    obtain ⟨rest,hcells⟩ := List.head?_eq_some_iff.mp (hsent hanswer hne)
    exact ⟨rest,hcells.symm⟩

/-- A line in front of a terminator, with the rest of the text behind it. -/
theorem processLine {line rest : List Char} {n : Nat}
    (hsize : s.inputBuf.length = inputBufSize) (hline : line ++ [nul] <+: s.inputBuf)
    (hnul : nul ∉ line) (hn : line.length < n) (hpos : s.inputPos = n + rest.length)
    (hrest : rest ++ [nul] <+: s.inputBuf.drop n) :
    Simulates (s.processLine P k n) (Pending.outcome P k (.found (.line line) rest)) := by
  have hstring : CString.string nul s.inputBuf = line := CString.string_of_prefix hline hnul
  have hmove (hkept : (P.answer k (.line line)).1 = .kept) : ∃ s',
      Reader.discardLine n { s with inputBuf := P.leaves k (.line line) s.inputBuf } = some s' ∧
        Holds { s' with lineDetected := false } ⟨rest,false⟩ := by
    have hsame : (P.leaves k (.line line) s.inputBuf).drop n = s.inputBuf.drop n := by
      have hdrop := congrArg (List.drop (n - line.length)) (P.leaves_line k line s.inputBuf hkept)
      rwa [List.drop_drop,List.drop_drop,Nat.add_sub_cancel' (Nat.le_of_lt hn)] at hdrop
    have hcount : s.inputPos + 1 - n = rest.length + 1 := by omega
    obtain ⟨moved,hmoved,hlength,hfront⟩ := CString.memmove_of_prefix (hsame ▸ hrest) hcount
    have hpositive : 0 < s.inputPos := by omega
    refine ⟨{ s with inputBuf := moved,inputPos := s.inputPos - n },?_,?_⟩
    · rw [Reader.discardLine,if_pos hpositive,Reader.discard,hmoved]
      rfl
    · refine ⟨hlength.trans ((P.length_leaves k _ _).trans hsize),?_,rfl,hfront⟩
      simp only
      omega
  obtain ⟨s',hs',hholds⟩ := settle _ _ _ hsize hmove
  refine ⟨s',?_,hholds⟩
  rw [Reader.processLine,hstring]
  simp only [hs',Option.bind_eq_bind,Option.bind_some]
  rw [Pending.outcome]
  cases (P.answer k (.line line)).1 <;> rfl

/-- The rest of a text behind a line that a carriage return ends. -/
theorem line {crPos n : Nat} (h : Holds s p) (hfind : CString.find nul cr p.text = some crPos)
    (hlt : crPos < n) (hle : n ≤ p.text.length) {cut : List Char}
    (hcut : Buffer.store s.inputBuf crPos [nul] = some cut) :
    Simulates ({ s with inputBuf := cut }.processLine P k n)
      (Pending.outcome P k (.found (.line (p.text.take crPos)) (p.text.drop n))) := by
  obtain ⟨front,rest,htext,rfl,-,hnul⟩ := CString.find_eq_some_iff.mp hfind
  have hinside : front.length < p.text.length := by omega
  have hfront : p.text.take front.length = front := by rw [htext,List.take_left]
  obtain ⟨cut',hstore,hlength,hheld,hdrop⟩ := CString.store_terminator h.terminated hinside
  obtain rfl : cut' = cut := Option.some.inj (hstore.symm.trans hcut)
  have hsame : cut'.drop n = s.inputBuf.drop n := by
    have hboth := congrArg (List.drop (n - (front.length + 1))) hdrop
    rwa [List.drop_drop,List.drop_drop,Nat.add_sub_cancel' hlt] at hboth
  refine processLine (hlength.trans h.size) hheld (hfront.symm ▸ hnul) ?_ ?_ ?_
  · rw [hfront]
    exact hlt
  · rw [h.pos,List.length_drop]
    omega
  · simp only
    rw [hsame]
    exact CString.drop_prefix h.terminated hle

theorem lookForStart (h : Holds s ⟨text,false⟩) :
    Simulates (s.lookForStart P k) (Pending.outcome P k (Pending.lookForStart text)) := by
  have hsearch : CString.strchr nul cr s.inputBuf = some (CString.find nul cr text) :=
    h.strchr (by decide)
  have hpos : s.inputPos = text.length := h.pos
  simp only [Reader.lookForStart,Pending.lookForStart,hsearch,Option.bind_eq_bind,
    Option.bind_some]
  cases hfind : CString.find nul cr text with
  | none =>
    have hfirst : s.inputBuf[0]? = some (text.getD 0 nul) := h.getElem? (Nat.zero_le _)
    simp only [hfirst,Option.bind_some]
    split
    · rename_i hlf
      have hne : 0 < text.length := by
        cases text with
        | nil => exact absurd hlf (by decide)
        | cons x text => exact Nat.succ_pos _
      obtain ⟨s',hs',hholds⟩ := h.discard (n := 1) hne
      exact ⟨s',by rw [hs']; rfl,hholds⟩
    · exact ⟨s,rfl,h⟩
  | some crPos =>
    cases crPos with
    | zero =>
      by_cases hthree : 3 ≤ text.length
      swap
      · rw [if_neg (by omega),if_neg hthree]
        exact ⟨s,rfl,h⟩
      have hsecond : s.inputBuf[1]? = some (text.getD 1 nul) :=
        h.getElem? (p := ⟨text,false⟩) (by simp only; omega)
      have hthird : s.inputBuf[2]? = some (text.getD 2 nul) :=
        h.getElem? (p := ⟨text,false⟩) (by simp only; omega)
      rw [if_pos (by omega),if_pos hthree,hsecond,Option.bind_some]
      by_cases hlf : text.getD 1 nul = lf
      · obtain ⟨s',hs',hholds⟩ := h.discard (n := 2) (by simp only; omega)
        rw [if_pos hlf,if_pos hlf,hthird,hs']
        exact ⟨{ s' with lineDetected := decide (text.getD 2 nul ≠ cr) },rfl,
          hholds.size,hholds.pos,rfl,hholds.terminated⟩
      · obtain ⟨s',hs',hholds⟩ := h.discard (n := 1) (by simp only; omega)
        rw [if_neg hlf,if_neg hlf,hs']
        exact ⟨s',rfl,hholds⟩
    | succ crPos =>
      have hlt : crPos + 1 < text.length := CString.find_lt hfind
      obtain ⟨cut,hcut,hlength,-,hdrop⟩ :=
        CString.store_terminator (i := crPos + 1) h.terminated hlt
      have hnext : cut[crPos + 1 + 1]? = some (text.getD (crPos + 1 + 1) nul) := by
        have hsame := congrArg (fun cells => cells[0]?) hdrop
        simp only [List.getElem?_drop] at hsame
        exact hsame.trans (h.getElem? hlt)
      have hone : 1 ≤ s.inputPos - (crPos + 1 : Nat) := by omega
      simp only [hcut,Option.bind_some,if_pos hone,hnext]
      apply h.line hfind (by omega) ?_ hcut
      split
      · rename_i hlf
        by_contra hshort
        rw [List.getD_eq_getElem?_getD,List.getElem?_eq_none (by simp only at hshort; omega)]
          at hlf
        exact absurd hlf (by decide)
      · simp only
        omega

/-- What is given up of a line that does not end as it should. -/
theorem giveUp {n : Nat} (h : Holds s ⟨text,true⟩) (hn : n ≤ text.length) :
    Simulates ((s.discard n).bind fun s' =>
        some (Pass.notProcessed,{ s' with lineDetected := false },k))
      (Pending.outcome P k (.waits ⟨text.drop n,false⟩)) := by
  obtain ⟨s',hs',hholds⟩ := h.discard hn
  rw [hs']
  exact ⟨{ s' with lineDetected := false },rfl,hholds.size,hholds.pos,rfl,hholds.terminated⟩

theorem lookForEnd (h : Holds s ⟨text,true⟩) :
    Simulates (s.lookForEnd P k) (Pending.outcome P k (Pending.lookForEnd text)) := by
  have hsearch : CString.strchr nul cr s.inputBuf = some (CString.find nul cr text) :=
    h.strchr (by decide)
  have hgreater : CString.strchr nul gd s.inputBuf = some (CString.find nul gd text) :=
    h.strchr (by decide)
  have hpos : s.inputPos = text.length := h.pos
  simp only [Reader.lookForEnd,Pending.lookForEnd,hsearch,hgreater,Option.bind_eq_bind,
    Option.bind_some]
  cases hfind : CString.find nul cr text with
  | some crPos =>
    by_cases htwo : crPos + 2 ≤ text.length
    swap
    · simp only [if_neg htwo,if_neg (show ¬2 ≤ s.inputPos - crPos by omega)]
      exact ⟨s,rfl,h⟩
    have hnext : s.inputBuf[crPos + 1]? = some (text.getD (crPos + 1) nul) :=
      h.getElem? (p := ⟨text,true⟩) (by simp only; omega)
    simp only [if_pos htwo,if_pos (show 2 ≤ s.inputPos - crPos by omega),hnext,Option.bind_some]
    split
    · have hinside : crPos < text.length := Nat.lt_of_lt_of_le (by omega) htwo
      obtain ⟨cut,hcut,-⟩ := CString.store_terminator h.terminated hinside
      simp only [hcut,Option.bind_some]
      exact h.line hfind (Nat.lt_add_of_pos_right (by decide)) htwo hcut
    · exact h.giveUp (by omega)
  | none =>
    dsimp only
    cases hprompt : CString.find nul gd text with
    | none => exact ⟨s,rfl,h⟩
    | some gdPos =>
      by_cases htwo : gdPos + 2 ≤ text.length
      swap
      · simp only [if_neg htwo,if_neg (show ¬2 ≤ s.inputPos - gdPos by omega)]
        exact ⟨s,rfl,h⟩
      have hnext : s.inputBuf[gdPos + 1]? = some (text.getD (gdPos + 1) nul) :=
        h.getElem? (p := ⟨text,true⟩) (by simp only; omega)
      simp only [if_pos htwo,if_pos (show 2 ≤ s.inputPos - gdPos by omega),hnext,
        Option.bind_some]
      split
      · have hinside : gdPos < text.length := Nat.lt_of_lt_of_le (by omega) htwo
        obtain ⟨cut,hcut,hlength,-,hdrop⟩ := CString.store_terminator h.terminated hinside
        have hrest : text.drop (gdPos + 1) ++ [nul] <+: cut.drop (gdPos + 1) := by
          rw [hdrop]
          exact CString.drop_prefix h.terminated hinside
        have hcount : s.inputPos + 1 - (gdPos + 1 : Nat) =
            ((text.drop (gdPos + 1)).length : Int) + 1 := by
          rw [List.length_drop]
          omega
        obtain ⟨moved,hmoved,hmovedLength,hfront⟩ := CString.memmove_of_prefix hrest hcount
        have hsize : moved.length = inputBufSize := hmovedLength.trans (hlength.trans h.size)
        have hpos' : s.inputPos - (gdPos + 1 : Nat) = (text.drop (gdPos + 1)).length := by
          rw [List.length_drop]
          omega
        simp only [hcut,Option.bind_some,Reader.discard,hmoved,Option.bind_eq_bind,
          Option.pure_def]
        obtain ⟨s',hs',hholds⟩ := settle (P := P) (k := k)
          (s := ⟨moved,s.inputPos - (gdPos + 1 : Nat),s.lineDetected⟩) .prompt
          (text.drop (gdPos + 1)) some hsize (by
            intro hkept
            rw [P.leaves_prompt k _ hkept]
            exact ⟨_,rfl,hsize,hpos',rfl,hfront⟩)
        refine ⟨s',?_,hholds⟩
        simp only [Reader.processPrompt,hs',Option.bind_eq_bind,Option.bind_some]
        rw [Pending.outcome]
        cases (P.answer k .prompt).1 <;> rfl
      · exact h.giveUp (by omega)

theorem iteration (h : Holds s p) :
    Simulates (s.iteration P k) (Pending.outcome P k p.look) := by
  obtain ⟨text,lineDetected⟩ := p
  cases lineDetected with
  | true =>
    have hdetected : s.lineDetected = true := h.detected
    rw [Reader.iteration,if_pos hdetected]
    exact h.lookForEnd
  | false =>
    have hdetected : ¬s.lineDetected = true := by
      rw [h.detected]
      exact Bool.false_ne_true
    obtain ⟨s',hstart,hholds⟩ := h.lookForStart (P := P) (k := k)
    simp only [Reader.iteration,if_neg hdetected,hstart,Option.bind_eq_bind,Option.bind_some,
      hholds.detected,Pending.look,Bool.false_eq_true,if_false]
    cases hlook : Pending.lookForStart text with
    | waits q =>
      rw [hlook] at hholds
      obtain ⟨rest,detected⟩ := q
      cases detected with
      | true => exact Holds.lookForEnd hholds
      | false => exact ⟨s',rfl,hholds⟩
    | found event rest =>
      rw [hlook] at hholds
      have hnot : (Pending.outcome P k (.found event rest)).2.1.lineDetected = false := by
        rw [Pending.outcome]
        split <;> rfl
      rw [hnot,if_neg Bool.false_ne_true]
      exact ⟨s',rfl,hholds⟩

/-- The loop in the buffer does what the loop on the text does. -/
theorem processLines {fuel : Nat} {ret : Int} {q : Pending} {k' : κ} (h : Holds s p)
    (hloop : Pending.processLines P fuel p k = some (ret,q,k')) :
    ∃ s', s.processLines P fuel k = some (ret,s',k') ∧ Holds s' q := by
  induction fuel generalizing s p k with
  | zero => cases hloop
  | succ fuel ih =>
    obtain ⟨s',hiter,hholds⟩ := h.iteration (P := P) (k := k)
    rw [Pending.processLines] at hloop
    rw [Reader.processLines,hiter]
    generalize Pending.outcome P k p.look = result at hloop hholds
    obtain ⟨pass,p',k₁⟩ := result
    cases pass with
    | returned ret' =>
      cases hloop
      exact ⟨s',rfl,hholds⟩
    | processed => exact ih hholds hloop
    | notProcessed =>
      cases hloop
      have hpos : s'.inputPos = p'.text.length := hholds.pos
      simp only [Option.bind_eq_bind,Option.bind_some,Pending.clear]
      by_cases hfull : p'.text.length = inputBufSize - 1
      · have hfull' : s'.inputPos = (inputBufSize : Int) - 1 := by
          rw [hpos,hfull]
          rfl
        obtain ⟨cells',hstore,hcleared⟩ := cleared hholds.size
        rw [if_pos hfull,if_pos hfull',hstore]
        exact ⟨_,rfl,hcleared⟩
      · have hfull' : ¬s'.inputPos = (inputBufSize : Int) - 1 := by
          intro heq
          rw [hpos] at heq
          exact hfull (by unfold inputBufSize at heq ⊢; omega)
        rw [if_neg hfull,if_neg hfull']
        exact ⟨s',rfl,hholds⟩

end Holds

namespace Pending

variable {κ : Type} {P : LineProcessor κ} {p q : Pending} {k k' : κ} {ret : Int}

theorem lookForEnd_waits {text : List Char} (h : lookForEnd text = .waits q) :
    q.text.length ≤ text.length := by
  unfold lookForEnd at h
  split at h
  · split_ifs at h <;> injection h with h <;> subst h <;> simp
  · split at h
    · split_ifs at h <;> injection h with h <;> subst h <;> simp
    · injection h with h
      subst h
      exact Nat.le_refl _

theorem look_waits (h : p.look = .waits q) : q.text.length ≤ p.text.length := by
  unfold look at h
  split_ifs at h with hdetected
  · exact lookForEnd_waits h
  cases hstart : lookForStart p.text with
  | found event rest =>
    rw [hstart] at h
    cases h
  | waits q' =>
    have hle := lookForStart_waits hstart
    rw [hstart] at h
    dsimp only at h
    split_ifs at h
    · exact Nat.le_trans (lookForEnd_waits h) hle
    · injection h with h
      exact h ▸ hle

theorem clear_length_lt (h : p.text.length < inputBufSize) :
    p.clear.text.length < inputBufSize - 1 := by
  unfold clear
  split_ifs with hfull
  · decide
  · unfold inputBufSize at h hfull ⊢
    omega

/-- A call of the reader leaves room in the buffer. -/
theorem processLines_length_lt {fuel : Nat} (hlt : p.text.length < inputBufSize)
    (h : processLines P fuel p k = some (ret,q,k')) : q.text.length < inputBufSize - 1 := by
  induction fuel generalizing p k with
  | zero => cases h
  | succ fuel ih =>
    rw [processLines] at h
    cases hlook : p.look with
    | waits q' =>
      have hle := look_waits hlook
      rw [hlook,outcome] at h
      cases h
      exact clear_length_lt (Nat.lt_of_le_of_lt hle hlt)
    | found event rest =>
      have hrest := look_found hlook
      rw [hlook,outcome] at h
      cases hanswer : (P.answer k event).1 with
      | kept =>
        rw [hanswer] at h
        exact ih (Nat.lt_trans hrest hlt) h
      | sent =>
        rw [hanswer] at h
        exact ih (Nat.lt_of_le_of_lt (Nat.zero_le _) hlt) h
      | failed ret' =>
        rw [hanswer] at h
        cases h
        decide

end Pending

/-- What the buffer holds between two calls: in front of the first one there is no terminator. -/
structure Filled (s : Reader) (p : Pending) : Prop where
  size : s.inputBuf.length = inputBufSize
  pos : s.inputPos = p.text.length
  detected : s.lineDetected = p.lineDetected
  front : p.text <+: s.inputBuf
  room : p.text.length < inputBufSize - 1

namespace Filled

variable {κ : Type} {P : LineProcessor κ} {s : Reader} {p : Pending}

theorem start {cells : List Char} (hsize : cells.length = inputBufSize) (lineDetected : Bool) :
    Filled ⟨cells,0,lineDetected⟩ ⟨[],lineDetected⟩ :=
  ⟨hsize,rfl,rfl,List.nil_prefix,Nat.zero_lt_succ _⟩

/-- A call ends, stays inside the buffer and does what it does on the text. Where something can be
read, something is read. -/
theorem tryReadLine (h : Filled s p) (available : List Char) (k : κ) :
    ∃ ret s' unread k' q, s.tryReadLine P available k = some (ret,s',unread,k') ∧
      p.read P available k = some (ret,q,unread,k') ∧ Filled s' q ∧
      (available ≠ [] → unread.length < available.length) := by
  cases available with
  | nil => exact ⟨_,s,[],k,p,rfl,rfl,h,fun hne => absurd rfl hne⟩
  | cons c available =>
    have hroom := h.room
    have hpos : s.inputPos.toNat = p.text.length := by
      rw [h.pos]
      rfl
    have hread : ((c :: available).take (inputBufSize - 1 - p.text.length)).length ≤
        inputBufSize - 1 - p.text.length := List.length_take_le _ _
    have hfits : p.text.length +
        ((c :: available).take (inputBufSize - 1 - p.text.length)).length <
          s.inputBuf.length := by
      rw [h.size]
      omega
    obtain ⟨filled,ended,hfilled,hended,hlength,hfront⟩ :=
      CString.append_of_prefix nul h.front hfits
    obtain ⟨ret,q,k',hloop⟩ := Pending.processLines_ends P inputBufSize
      (p := ⟨p.text ++ (c :: available).take (inputBufSize - 1 - p.text.length),
        p.lineDetected⟩) k (by
          rw [h.size] at hfits
          rw [List.length_append]
          exact hfits)
    have hholds : Holds ⟨ended,(s.inputPos +
        ((c :: available).take (inputBufSize - 1 - p.text.length)).length),s.lineDetected⟩
        ⟨p.text ++ (c :: available).take (inputBufSize - 1 - p.text.length),
          p.lineDetected⟩ := by
      refine ⟨hlength.trans h.size,?_,h.detected,hfront⟩
      simp only
      rw [h.pos,List.length_append]
      omega
    obtain ⟨s',hs',hafter⟩ := hholds.processLines hloop
    refine ⟨ret,s',(c :: available).drop (inputBufSize - 1 - p.text.length),k',q,?_,?_,?_,?_⟩
    · rw [← h.pos] at hfilled
      have hended' : Buffer.store filled (s.inputPos +
          ((c :: available).take (inputBufSize - 1 - p.text.length)).length) [nul] =
            some ended := by
        rw [← hended,h.pos]
        rfl
      simp only [Reader.tryReadLine,hpos,hfilled,hended',Option.bind_eq_bind,Option.bind_some,
        hs']
      rfl
    · simp only [Pending.read,hloop,Option.map_some]
    · refine ⟨hafter.size,hafter.pos,hafter.detected,?_,?_⟩
      · exact (List.prefix_append _ _).trans hafter.terminated
      · exact Pending.processLines_length_lt hholds.length_lt hloop
    · intro _
      rw [List.length_drop,List.length_cons]
      omega

end Filled

namespace Reading

variable {κ : Type} {P : LineProcessor κ}

/-- A call of the reader from a buffer that is filled as it should be. -/
theorem step_filled {r : Reading κ} {p : Pending} (h : Filled r.reader p)
    (arrived : List Char) : ∃ r' q ret, r.step P arrived = some r' ∧
      p.read P (r.unread ++ arrived) r.state = some (ret,q,r'.unread,r'.state) ∧
      Filled r'.reader q ∧
      (r.unread ++ arrived ≠ [] → r'.unread.length < (r.unread ++ arrived).length) := by
  obtain ⟨ret,s',unread,k',q,hread,hp,hfilled,hless⟩ :=
    h.tryReadLine (P := P) (r.unread ++ arrived) r.state
  exact ⟨⟨s',unread,k'⟩,q,ret,by rw [step,hread]; rfl,hp,hfilled,hless⟩

theorem run_filled {r : Reading κ} {p : Pending} (h : Filled r.reader p)
    (arrivals : List (List Char)) : ∃ r' q, r.run P arrivals = some r' ∧ Filled r'.reader q := by
  induction arrivals generalizing r p with
  | nil => exact ⟨r,p,rfl,h⟩
  | cons arrived arrivals ih =>
    obtain ⟨r₁,q₁,_,hfirst,_,hfilled,_⟩ := step_filled (P := P) h arrived
    obtain ⟨r₂,q₂,hrest,hlast⟩ := ih hfilled
    exact ⟨r₂,q₂,by rw [run,List.foldlM_cons,hfirst]; exact hrest,hlast⟩

/-- Whatever the modem sends, however it arrives and however the lines are processed, no call
leaves the input buffer, every call returns, and it reads where there is something to read. -/
theorem run_inside (P : LineProcessor κ) {inputBuf : List Char}
    (hsize : inputBuf.length = inputBufSize) (lineDetected : Bool) (state : κ)
    (arrivals : List (List Char)) :
    ∃ r, (start inputBuf lineDetected state).run P arrivals = some r ∧
      r.reader.inputBuf.length = inputBufSize ∧ 0 ≤ r.reader.inputPos ∧
      r.reader.inputPos < inputBufSize - 1 ∧
      ∀ arrived, r.unread ++ arrived ≠ [] → ∃ r', r.step P arrived = some r' ∧
        r'.unread.length < (r.unread ++ arrived).length := by
  obtain ⟨r,q,hrun,hfilled⟩ := run_filled (P := P)
    (r := start inputBuf lineDetected state) (Filled.start hsize lineDetected) arrivals
  have hroom := hfilled.room
  have hpos := hfilled.pos
  refine ⟨r,hrun,hfilled.size,by omega,?_,fun arrived hne => ?_⟩
  · unfold inputBufSize at hroom ⊢
    omega
  · obtain ⟨r',_,_,hstep,_,_,hless⟩ := step_filled (P := P) hfilled arrived
    exact ⟨r',hstep,hless hne⟩

theorem run_inside_recorder :
    ∃ r, (start (List.replicate inputBufSize 'x') true []).run recorder
        ["\r\nOK\r\n\r".toList] = some r ∧
      r.reader.inputBuf.length = inputBufSize ∧ 0 ≤ r.reader.inputPos ∧
      r.reader.inputPos < inputBufSize - 1 ∧
      ∀ arrived, r.unread ++ arrived ≠ [] → ∃ r', r.step recorder arrived = some r' ∧
        r'.unread.length < (r.unread ++ arrived).length :=
  run_inside recorder List.length_replicate true [] ["\r\nOK\r\n\r".toList]

end Reading

end Pyrn.Modem
