import Pyrn.Framework.Framing
import Pyrn.Modem.PendingText

/-!
# The lines of a modem, however they arrive

A modem with the echo on sends the command back, ended by a carriage return, and every line of its
answer between two pairs of a carriage return and a line feed. The stream hands this to the reader
in pieces of any size.
-/

namespace Pyrn.Modem

/-- What a modem sends. -/
inductive Sent
  | echo (text : List Char)
  | answer (text : List Char)
  deriving DecidableEq, Repr

namespace Sent

def text : Sent → List Char
  | echo text => text
  | answer text => text

/-- The characters on the line. -/
def encode : Sent → List Char
  | echo text => text ++ [cr]
  | answer text => cr :: lf :: (text ++ [cr,lf])

/-- An echo that does not look like the end of another line, and an answer in which a `>` can only
be the last character, each short enough for the buffer. -/
def WellFormed : Sent → Prop
  | echo text => text ≠ [] ∧ text.head? ≠ some lf ∧ cr ∉ text ∧ nul ∉ text ∧ text.length ≤ 190
  | answer text =>
      text ≠ [] ∧ cr ∉ text ∧ nul ∉ text ∧ gd ∉ text.dropLast ∧ text.length ≤ 189

end Sent

/-- What waits in the buffer when `rest` has arrived of something: the start of a line is taken
away as soon as it is known to be one. -/
def waiting (rest : List Char) : Pending :=
  if 3 ≤ rest.length ∧ rest.head? = some cr then ⟨rest.drop 2,true⟩ else ⟨rest,false⟩

namespace Pending

variable {text rest data : List Char}

theorem waiting_of_head (h : rest.head? ≠ some cr) : waiting rest = ⟨rest,false⟩ :=
  if_neg fun hboth => h hboth.2

theorem length_le_waiting (rest : List Char) : rest.length ≤ (waiting rest).text.length + 2 := by
  unfold waiting
  split_ifs
  · rw [List.length_drop]
    omega
  · exact Nat.le_add_right _ 2

theorem waiting_start (c : Char) (rest : List Char) :
    waiting (cr :: lf :: c :: rest) = ⟨c :: rest,true⟩ :=
  if_pos ⟨by simp,rfl⟩

/-- A start is recognised by its third character. -/
theorem look_start {c : Char} (hc : c ≠ cr) (rest : List Char) :
    look ⟨cr :: lf :: c :: rest,false⟩ = lookForEnd (c :: rest) := by
  have hfind : CString.find nul cr (cr :: lf :: c :: rest) = some 0 :=
    CString.find_eq_zero_iff.mpr rfl
  have hstart : lookForStart (cr :: lf :: c :: rest) = .waits ⟨c :: rest,true⟩ := by
    unfold lookForStart
    rw [hfind]
    have hthree : 3 ≤ (cr :: lf :: c :: rest).length := by simp
    simp only [if_pos hthree]
    have hthird : decide ((cr :: lf :: c :: rest).getD 2 nul ≠ cr) = true := decide_eq_true hc
    rw [hthird]
    rfl
  rw [look,if_neg Bool.false_ne_true]
  simp only [hstart]
  rfl

/-- An echo that has arrived is handed on, and its carriage return is taken away. -/
theorem look_echo (hne : text ≠ []) (hcr : cr ∉ text) (hnul : nul ∉ text)
    (hrest : rest.head? ≠ some lf) :
    look ⟨text ++ cr :: rest,false⟩ = .found (.line text) rest := by
  have hfind : CString.find nul cr (text ++ cr :: rest) = some text.length :=
    CString.find_append hcr hnul
  have hpos := List.length_pos_iff.mpr hne
  obtain ⟨m,hm⟩ : ∃ m, text.length = m + 1 := ⟨text.length - 1,by omega⟩
  have hnext : (text ++ cr :: rest).getD (m + 1 + 1) nul ≠ lf := by
    rw [← hm,List.getD_eq_getElem?_getD,List.getElem?_append_right (by omega),
      Nat.add_sub_cancel_left,List.getElem?_cons_succ]
    cases rest with
    | nil => decide
    | cons c rest => exact fun heq => hrest (congrArg some heq)
  have hstart : lookForStart (text ++ cr :: rest) = .found (.line text) rest := by
    have hline : (text ++ cr :: rest).take (m + 1) = text := by rw [← hm,List.take_left]
    have hdrop : (text ++ cr :: rest).drop (m + 1 + 0 + 1) = rest := by
      have hcount : m + 1 + 0 + 1 = text.length + 1 := by omega
      rw [hcount,List.drop_append,Nat.add_sub_cancel_left,List.drop_eq_nil_of_le (Nat.le_succ _)]
      rfl
    unfold lookForStart
    rw [hfind,hm]
    simp only [if_neg hnext,hline,hdrop]
  rw [look,if_neg Bool.false_ne_true]
  simp only [hstart]

/-- A line is handed on with its end, and both are taken away. -/
theorem lookForEnd_line (hcr : cr ∉ text) (hnul : nul ∉ text) :
    lookForEnd (text ++ cr :: lf :: rest) = .found (.line text) rest := by
  have hfind : CString.find nul cr (text ++ cr :: lf :: rest) = some text.length :=
    CString.find_append hcr hnul
  have htwo : text.length + 2 ≤ (text ++ cr :: lf :: rest).length := by simp
  have hnext : (text ++ cr :: lf :: rest).getD (text.length + 1) nul = lf := by
    rw [List.getD_eq_getElem?_getD,List.getElem?_append_right (by omega),Nat.add_sub_cancel_left]
    rfl
  have hdrop : (text ++ cr :: lf :: rest).drop (text.length + 2) = rest := by
    rw [List.drop_append,Nat.add_sub_cancel_left,List.drop_eq_nil_of_le (by omega)]
    rfl
  unfold lookForEnd
  rw [hfind]
  simp only [if_pos htwo,if_pos hnext,List.take_left,hdrop]

theorem look_answer (hne : text ≠ []) (hcr : cr ∉ text) (hnul : nul ∉ text) :
    look ⟨cr :: lf :: (text ++ cr :: lf :: rest),false⟩ = .found (.line text) rest := by
  cases text with
  | nil => exact absurd rfl hne
  | cons c text =>
    rw [List.cons_append,look_start (Ne.symm (List.ne_of_not_mem_cons hcr)),← List.cons_append]
    exact lookForEnd_line hcr hnul

/-- A part of an echo waits. -/
theorem look_part_echo (hcr : cr ∉ rest) (hhead : rest.head? ≠ some lf) :
    look ⟨rest,false⟩ = .waits ⟨rest,false⟩ := by
  have hstart : lookForStart rest = .waits ⟨rest,false⟩ := by
    unfold lookForStart
    rw [CString.find_eq_none hcr]
    have hfirst : rest.getD 0 nul ≠ lf := by
      cases rest with
      | nil => decide
      | cons c rest => exact fun heq => hhead (congrArg some heq)
    simp only [if_neg hfirst]
  rw [look,if_neg Bool.false_ne_true]
  simp only [hstart]
  rfl

/-- A part of a line waits when a `>` can only be its last character. -/
theorem lookForEnd_part (hcr : cr ∉ rest) (hgd : gd ∉ rest.dropLast) :
    lookForEnd rest = .waits ⟨rest,true⟩ := by
  unfold lookForEnd
  rw [CString.find_eq_none hcr]
  cases hfind : CString.find nul gd rest with
  | none => rfl
  | some gdPos =>
    have hlast : ¬gdPos + 2 ≤ rest.length := by
      intro htwo
      obtain ⟨front,behind,rfl,rfl,-⟩ := CString.find_eq_some_iff.mp hfind
      rw [List.length_append,List.length_cons] at htwo
      apply hgd
      rw [List.dropLast_append_of_ne_nil (List.cons_ne_nil gd behind),
        List.dropLast_cons_of_ne_nil (List.ne_nil_of_length_pos (by omega))]
      exact List.mem_append_right _ List.mem_cons_self
    simp only [if_neg hlast]

/-- A line waits whose line feed is missing. -/
theorem lookForEnd_half (hcr : cr ∉ text) (hnul : nul ∉ text) :
    lookForEnd (text ++ [cr]) = .waits ⟨text ++ [cr],true⟩ := by
  have hfind : CString.find nul cr (text ++ [cr]) = some text.length :=
    CString.find_append hcr hnul
  have htwo : ¬text.length + 2 ≤ (text ++ [cr]).length := by
    rw [List.length_append,List.length_singleton]
    omega
  unfold lookForEnd
  rw [hfind]
  simp only [if_neg htwo]

end Pending

namespace Sent

open Pending

variable {u : Sent} {rest data : List Char}

/-- What has been sent completely is handed on. -/
theorem look_encode (hwf : u.WellFormed) (hrest : rest.head? ≠ some lf) :
    look ⟨u.encode ++ rest,false⟩ = .found (.line u.text) rest := by
  cases u with
  | echo text =>
    obtain ⟨hne,-,hcr,hnul,-⟩ := hwf
    rw [encode,List.append_assoc]
    exact look_echo hne hcr hnul hrest
  | answer text =>
    obtain ⟨hne,hcr,hnul,-,-⟩ := hwf
    rw [encode,List.cons_append,List.cons_append,List.append_assoc]
    exact look_answer hne hcr hnul

theorem not_mem_part {c : Char} {whole front : List Char} (h : front <+: whole)
    (hc : c ∉ whole) : c ∉ front := fun hmem => hc (h.subset hmem)

theorem head_of_prefix {whole front : List Char} (h : front <+: whole) :
    front = [] ∨ front.head? = whole.head? := by
  obtain ⟨behind,rfl⟩ := h
  cases front with
  | nil => exact .inl rfl
  | cons c front => exact .inr rfl

/-- The part of an answer behind the start of its line. -/
theorem lookForEnd_begun {text rest : List Char} (hcr : cr ∉ text) (hnul : nul ∉ text)
    (hgd : gd ∉ text.dropLast) (hrest : rest <+: text ++ [cr]) :
    lookForEnd rest = .waits ⟨rest,true⟩ := by
  rcases List.prefix_concat_iff.mp hrest with rfl | hinside
  · exact lookForEnd_half hcr hnul
  · refine lookForEnd_part (not_mem_part hinside hcr) ?_
    obtain ⟨behind,rfl⟩ := hinside
    cases behind with
    | nil => rwa [List.append_nil] at hgd
    | cons c behind =>
      rw [List.dropLast_append_of_ne_nil (List.cons_ne_nil c behind)] at hgd
      exact fun hmem => hgd (List.mem_append_left _ (List.dropLast_subset _ hmem))

/-- What has been sent in part waits. -/
theorem look_begun (hwf : u.WellFormed) (hrest : rest <+: u.encode)
    (hlt : rest.length < u.encode.length) :
    look ⟨rest,false⟩ = .waits (waiting rest) ∧
      (waiting rest).text.length < inputBufSize - 1 := by
  cases u with
  | echo text =>
    obtain ⟨-,hhead,hcr,-,hlength⟩ := hwf
    rw [encode,List.length_append,List.length_singleton] at hlt
    have hinside : rest <+: text :=
      List.prefix_of_prefix_length_le hrest (List.prefix_append _ _) (Nat.le_of_lt_succ hlt)
    have hcr' := not_mem_part hinside hcr
    have hhead' : rest.head? ≠ some lf := by
      rcases head_of_prefix hinside with rfl | heq
      · exact fun h => by cases h
      · rwa [heq]
    have hnot : rest.head? ≠ some cr := by
      intro hfirst
      obtain ⟨behind,rfl⟩ := List.head?_eq_some_iff.mp hfirst
      exact hcr' List.mem_cons_self
    rw [waiting_of_head hnot]
    refine ⟨look_part_echo hcr' hhead',?_⟩
    have hle := hinside.length_le
    unfold inputBufSize
    simp only
    omega
  | answer text =>
    obtain ⟨hne,hcr,hnul,hgd,hlength⟩ := hwf
    rw [encode] at hrest hlt
    rcases List.prefix_cons_iff.mp hrest with rfl | ⟨rest,rfl,htail⟩
    · exact ⟨rfl,by decide⟩
    rcases List.prefix_cons_iff.mp htail with rfl | ⟨rest,rfl,hbehind⟩
    · exact ⟨rfl,by decide⟩
    cases rest with
    | nil => exact ⟨rfl,by decide⟩
    | cons c rest =>
      have hshort : (c :: rest).length ≤ (text ++ [cr]).length := by
        simp only [List.length_cons,List.length_append,List.length_nil] at hlt ⊢
        omega
      have hinside : c :: rest <+: text ++ [cr] := by
        refine List.prefix_of_prefix_length_le hbehind ?_ hshort
        exact ⟨[lf],by rw [List.append_assoc]; rfl⟩
      have hc : c ≠ cr := by
        cases text with
        | nil => exact absurd rfl hne
        | cons d text =>
          obtain ⟨rfl,-⟩ := List.cons_prefix_cons.mp hinside
          exact Ne.symm (List.ne_of_not_mem_cons hcr)
      rw [waiting_start,look_start hc]
      refine ⟨lookForEnd_begun hcr hnul hgd hinside,?_⟩
      rw [List.length_append,List.length_singleton] at hshort
      unfold inputBufSize
      simp only
      omega

/-- More characters behind what waits: as if nothing had been looked for yet. -/
theorem look_more (hwf : u.WellFormed) (hrest : rest <+: u.encode) (data : List Char) :
    look ⟨(waiting rest).text ++ data,(waiting rest).lineDetected⟩ = look ⟨rest ++ data,false⟩ := by
  by_cases hstart : 3 ≤ rest.length ∧ rest.head? = some cr
  swap
  · rw [waiting,if_neg hstart]
  cases u with
  | echo text =>
    obtain ⟨hne,-,hcr,-⟩ := hwf
    rcases head_of_prefix hrest with rfl | hhead
    · cases hstart.2
    · rw [hstart.2,encode] at hhead
      cases text with
      | nil => exact absurd rfl hne
      | cons c text => exact absurd (Option.some.inj hhead) (List.ne_of_not_mem_cons hcr)
  | answer text =>
    obtain ⟨hne,hcr,-⟩ := hwf
    rw [encode] at hrest
    rcases List.prefix_cons_iff.mp hrest with rfl | ⟨rest,rfl,htail⟩
    · cases hstart.2
    rcases List.prefix_cons_iff.mp htail with rfl | ⟨rest,rfl,hbehind⟩
    · exact absurd hstart.1 (by simp)
    cases rest with
    | nil => exact absurd hstart.1 (by simp)
    | cons c rest =>
      have hc : c ≠ cr := by
        cases text with
        | nil => exact absurd rfl hne
        | cons d text =>
          obtain ⟨rfl,-⟩ := List.cons_prefix_cons.mp hbehind
          exact Ne.symm (List.ne_of_not_mem_cons hcr)
      rw [waiting_start]
      exact (look_start hc (rest ++ data)).symm

/-- The first character on the line of anything that is sent. -/
theorem head_encode (hwf : u.WellFormed) : u.encode.head? ≠ some lf := by
  cases u with
  | echo text =>
    obtain ⟨hne,hhead,-⟩ := hwf
    cases text with
    | nil => exact absurd rfl hne
    | cons c text => exact hhead
  | answer text => exact fun h => absurd (Option.some.inj h) (by decide)

theorem encode_length_pos (u : Sent) : 0 < u.encode.length := by
  cases u <;> simp [encode]

theorem two_le_encode_length (hwf : u.WellFormed) : 2 ≤ u.encode.length := by
  cases u with
  | echo text =>
    have hpos := List.length_pos_iff.mpr hwf.1
    rw [encode,List.length_append,List.length_singleton]
    omega
  | answer text =>
    rw [encode,List.length_cons,List.length_cons]
    omega

theorem length_le_flatMap_encode {units : List Sent} (hwf : ∀ u ∈ units, u.WellFormed) :
    2 * units.length ≤ (units.flatMap encode).length := by
  induction units with
  | nil => exact Nat.zero_le _
  | cons u units ih =>
    have hu := two_le_encode_length (hwf u List.mem_cons_self)
    have hrest := ih fun v hv => hwf v (List.mem_cons_of_mem u hv)
    rw [List.flatMap_cons,List.length_append,List.length_cons]
    omega

end Sent

namespace Pending

open Framing Sent

variable {κ : Type} {P : LineProcessor κ} {units : List Sent}

/-- The state behind lines that are handed on one after the other. -/
def handedOn (P : LineProcessor κ) (units : List Sent) (k : κ) : κ :=
  units.foldl (fun k u => (P.answer k (.line u.text)).2) k

/-- The first character of what follows something that has been sent. -/
theorem head_of_stream {part : List Char} (hwf : ∀ u ∈ units, u.WellFormed)
    (hpart : part <+: units.flatMap encode) : part.head? ≠ some lf := by
  rcases head_of_prefix hpart with rfl | hhead
  · exact fun h => by cases h
  rw [hhead]
  cases units with
  | nil => exact fun h => by cases h
  | cons u units =>
    rw [List.flatMap_cons,List.head?_append_of_ne_nil _
      (List.ne_nil_of_length_pos (encode_length_pos u))]
    exact head_encode (hwf u List.mem_cons_self)

/-- What has only begun waits. -/
theorem processLines_begun {remaining : List Sent} {rest : List Char} {fuel : Nat}
    (hwf : ∀ u ∈ remaining, u.WellFormed) (hbegins : Begins encode rest remaining)
    (hfuel : 0 < fuel) (k : κ) :
    processLines P fuel ⟨rest,false⟩ k = some (0,waiting rest,k) := by
  have hlook : look ⟨rest,false⟩ = .waits (waiting rest) ∧
      (waiting rest).text.length < inputBufSize - 1 := by
    cases remaining with
    | nil =>
      rw [show rest = [] from hbegins]
      exact ⟨rfl,by decide⟩
    | cons u remaining => exact look_begun (hwf u List.mem_cons_self) hbegins.1 hbegins.2
  have hclear : (waiting rest).clear = waiting rest := if_neg (Nat.ne_of_lt hlook.2)
  obtain ⟨fuel,rfl⟩ := Nat.exists_eq_add_of_lt hfuel
  rw [Nat.zero_add,processLines,hlook.1,outcome]
  simp only [hclear]

/-- The loop hands on what is complete, and leaves the beginning of the next thing. -/
theorem processLines_stream (hkept : ∀ k text, (P.answer k (.line text)).1 = .kept)
    {front remaining : List Sent} {rest : List Char} {fuel : Nat}
    (hwf : ∀ u ∈ front ++ remaining, u.WellFormed) (hbegins : Begins encode rest remaining)
    (hfuel : front.length < fuel) (k : κ) :
    processLines P fuel ⟨front.flatMap encode ++ rest,false⟩ k =
      some (0,waiting rest,handedOn P front k) := by
  induction front generalizing fuel k with
  | nil => exact processLines_begun hwf hbegins (Nat.lt_of_le_of_lt (Nat.zero_le _) hfuel) k
  | cons u front ih =>
    have hwf' : ∀ v ∈ front ++ remaining, v.WellFormed :=
      fun v hv => hwf v (List.mem_cons_of_mem u hv)
    have hpart : front.flatMap encode ++ rest <+: (front ++ remaining).flatMap encode := by
      rw [List.flatMap_append,List.prefix_append_right_inj]
      exact hbegins.prefix
    obtain ⟨fuel,rfl⟩ := Nat.exists_eq_add_of_lt (Nat.lt_of_le_of_lt (Nat.zero_le _) hfuel)
    rw [List.length_cons] at hfuel
    rw [List.flatMap_cons,List.append_assoc,Nat.zero_add,processLines,
      look_encode (hwf u List.mem_cons_self) (head_of_stream hwf' hpart),outcome,hkept]
    exact ih hwf' (by omega) _

/-- The loop goes on with what waits as if it had just arrived. -/
theorem processLines_more {rest data : List Char} {remaining : List Sent}
    (hwf : ∀ u ∈ remaining, u.WellFormed) (hbegins : Begins encode rest remaining) (fuel : Nat)
    (k : κ) : processLines P fuel ⟨(waiting rest).text ++ data,(waiting rest).lineDetected⟩ k =
      processLines P fuel ⟨rest ++ data,false⟩ k := by
  have hlook : look ⟨(waiting rest).text ++ data,(waiting rest).lineDetected⟩ =
      look ⟨rest ++ data,false⟩ := by
    cases remaining with
    | nil =>
      rw [show rest = [] from hbegins]
      rfl
    | cons u remaining => exact look_more (hwf u List.mem_cons_self) hbegins.1 data
  cases fuel with
  | zero => rfl
  | succ fuel => rw [processLines,processLines,hlook]

end Pending

namespace Reading

open Framing Sent Pending

variable {κ : Type} {P : LineProcessor κ} {units : List Sent}

/-- What has been read of the stream, and what has become of it. -/
def Follows (P : LineProcessor κ) (units : List Sent) (k : κ) (consumed : List Char)
    (r : Reading κ) : Prop :=
  ∃ front remaining rest, units = front ++ remaining ∧
    consumed = front.flatMap encode ++ rest ∧ Begins encode rest remaining ∧
    Filled r.reader (waiting rest) ∧ r.state = handedOn P front k

theorem handedOn_append (front behind : List Sent) (k : κ) :
    handedOn P (front ++ behind) k = handedOn P behind (handedOn P front k) :=
  List.foldl_append

/-- A call goes on in the stream by what it reads. -/
theorem Follows.step (hkept : ∀ k text, (P.answer k (.line text)).1 = .kept)
    (hwf : ∀ u ∈ units, u.WellFormed) {k : κ} {consumed : List Char} {r : Reading κ}
    (h : Follows P units k consumed r) (arrived : List Char)
    (hstream : consumed ++ (r.unread ++ arrived) <+: units.flatMap encode) :
    ∃ r' read, r.step P arrived = some r' ∧ r.unread ++ arrived = read ++ r'.unread ∧
      Follows P units k (consumed ++ read) r' := by
  obtain ⟨front,remaining,rest,rfl,rfl,hbegins,hfilled,hstate⟩ := h
  obtain ⟨r',q,ret,hstep,hread,hfilled',-⟩ := step_filled (P := P) hfilled arrived
  cases havailable : r.unread ++ arrived with
  | nil =>
    rw [havailable,Pending.read] at hread
    obtain ⟨-,rfl,hunread,hsame⟩ : netInterrupted = ret ∧ waiting rest = q ∧
        [] = r'.unread ∧ r.state = r'.state := by
      simpa using hread
    refine ⟨r',[],hstep,hunread,front,remaining,rest,rfl,List.append_nil _,hbegins,hfilled',?_⟩
    exact hsame ▸ hstate
  | cons c available =>
    rw [havailable] at hstream hread
    have hroom := hfilled.room
    have hwaiting := length_le_waiting rest
    simp only [Pending.read] at hread
    generalize hrest : inputBufSize - 1 - (waiting rest).text.length = room at hread
    have hboth := List.take_append_drop room (c :: available)
    have hshort : ((c :: available).take room).length ≤ room := List.length_take_le _ _
    generalize (c :: available).take room = piece at hread hboth hshort
    rw [← hboth] at hstream
    have hpart : rest ++ piece <+: remaining.flatMap encode := by
      rw [← List.append_assoc,List.flatMap_append] at hstream
      have hfront := (List.prefix_append _ _).trans hstream
      rwa [List.append_assoc,List.prefix_append_right_inj] at hfront
    obtain ⟨more,behind,rest',hremaining,hpiece,hbegins'⟩ := split_of_prefix hpart
    have hwf' : ∀ u ∈ remaining, u.WellFormed := fun u hu => hwf u (List.mem_append_right _ hu)
    have hlength : more.length < inputBufSize := by
      have hmore := length_le_flatMap_encode fun u hu => hwf' u (by
        rw [hremaining]
        exact List.mem_append_left _ hu)
      have hsum := congrArg List.length hpiece
      rw [List.length_append,List.length_append] at hsum
      unfold inputBufSize at hroom hrest ⊢
      omega
    rw [processLines_more hwf' hbegins,hpiece,
      processLines_stream hkept (hremaining ▸ hwf') hbegins' hlength,Option.map_some] at hread
    obtain ⟨-,rfl,hunread,hsame⟩ : 0 = ret ∧ waiting rest' = q ∧
        (c :: available).drop room = r'.unread ∧
          handedOn P more r.state = r'.state := by
      simpa using hread
    refine ⟨r',piece,hstep,?_,front ++ more,behind,rest',?_,?_,hbegins',hfilled',?_⟩
    · rw [← hunread]
      exact hboth.symm
    · rw [hremaining,List.append_assoc]
    · rw [List.append_assoc,hpiece,List.flatMap_append,List.append_assoc]
    · rw [← hsame,handedOn_append,hstate]

/-- Every line is handed on when its last character has been read, whole, in order and once,
however the characters arrive. -/
theorem run_lines (P : LineProcessor κ) (hkept : ∀ k text, (P.answer k (.line text)).1 = .kept)
    {inputBuf : List Char} (hsize : inputBuf.length = inputBufSize) {units : List Sent}
    (hwf : ∀ u ∈ units, u.WellFormed) (k : κ) (arrivals : List (List Char))
    (harrivals : arrivals.flatten <+: units.flatMap encode) :
    ∃ r read, (start inputBuf false k).run P arrivals = some r ∧
      arrivals.flatten = read ++ r.unread ∧
      r.state = handedOn P (completed encode units read.length) k := by
  have hgeneral : ∀ (arrivals : List (List Char)) (consumed : List Char) (r : Reading κ),
      Follows P units k consumed r → consumed ++ (r.unread ++ arrivals.flatten) <+:
        units.flatMap encode → ∃ r' read, r.run P arrivals = some r' ∧
          r.unread ++ arrivals.flatten = read ++ r'.unread ∧
            Follows P units k (consumed ++ read) r' := by
    intro arrivals
    induction arrivals with
    | nil =>
      intro consumed r hfollows _
      exact ⟨r,[],rfl,List.append_nil _,(List.append_nil consumed).symm ▸ hfollows⟩
    | cons arrived arrivals ih =>
      intro consumed r hfollows hstream
      rw [List.flatten_cons,← List.append_assoc r.unread] at hstream ⊢
      obtain ⟨r₁,read₁,hfirst,hread₁,hfollows₁⟩ := hfollows.step hkept hwf arrived
        ((List.prefix_append _ arrivals.flatten).trans (by rwa [List.append_assoc]))
      rw [hread₁,List.append_assoc read₁,← List.append_assoc] at hstream
      obtain ⟨r₂,read₂,hrest,hread₂,hfollows₂⟩ := ih _ r₁ hfollows₁ hstream
      refine ⟨r₂,read₁ ++ read₂,?_,?_,?_⟩
      · rw [run,List.foldlM_cons,hfirst]
        exact hrest
      · rw [hread₁,List.append_assoc,hread₂,List.append_assoc]
      · rw [← List.append_assoc]
        exact hfollows₂
  have hnothing : Begins encode [] units := by
    cases units with
    | nil => rfl
    | cons u units => exact ⟨List.nil_prefix,encode_length_pos u⟩
  obtain ⟨r,read,hrun,hread,front,remaining,rest,rfl,hsplit,hbegins,-,hstate⟩ :=
    hgeneral arrivals [] (start inputBuf false k)
      ⟨[],units,[],rfl,rfl,hnothing,Filled.start hsize false,rfl⟩ harrivals
  rw [List.nil_append] at hsplit
  refine ⟨r,read,hrun,hread,?_⟩
  rw [hstate,hsplit,completed_of_begins hbegins]

theorem run_lines_cpin : ∃ r read,
    (start (List.replicate inputBufSize nul) false []).run recorder
        ["AT+CPIN?\r\r".toList,"\n+CPIN: REA".toList,"DY\r\n".toList] = some r ∧
      ["AT+CPIN?\r\r".toList,"\n+CPIN: REA".toList,"DY\r\n".toList].flatten =
        read ++ r.unread ∧
      r.state = handedOn recorder
        (completed encode [.echo "AT+CPIN?".toList,.answer "+CPIN: READY".toList] read.length) [] :=
  run_lines recorder (fun _ _ => rfl) List.length_replicate
    (by simp only [List.mem_cons,List.not_mem_nil,or_false,forall_eq_or_imp,forall_eq]
        exact ⟨⟨by decide,by decide,by decide,by decide,by decide⟩,
          by decide,by decide,by decide,by decide,by decide⟩) [] _ (by decide)

theorem handedOn_recorder (units : List Sent) (record : List Event) :
    handedOn recorder units record = record ++ units.map fun u => .line u.text := by
  induction units generalizing record with
  | nil => exact (List.append_nil record).symm
  | cons u units ih =>
    have hrest := ih (record ++ [.line u.text])
    rw [List.append_assoc] at hrest
    exact hrest

/-- A `>` in the middle of a line ends what is looked for as soon as the next character is there
and the end of the line is not. -/
theorem look_cut {front : List Char} {c d : Char} (hhead : (front ++ [gd]).head? = some d)
    (hd : d ≠ cr) (hfront : cr ∉ front) (hnul : nul ∉ front) (hgd : gd ∉ front) (hc : c ≠ cr) :
    look ⟨cr :: lf :: (front ++ [gd,c]),false⟩ =
      if c = ' ' then .found .prompt [c] else .waits ⟨[c],false⟩ := by
  have hnone : CString.find nul cr (front ++ [gd,c]) = none := by
    apply CString.find_eq_none
    intro hmem
    rcases List.mem_append.mp hmem with hmem | hmem
    · exact hfront hmem
    · rcases List.mem_cons.mp hmem with hmem | hmem
      · exact absurd hmem (by decide)
      · exact hc (List.mem_singleton.mp hmem).symm
  have hfind : CString.find nul gd (front ++ [gd,c]) = some front.length :=
    CString.find_append hgd hnul
  have htwo : front.length + 2 ≤ (front ++ [gd,c]).length := by simp
  have hnext : (front ++ [gd,c]).getD (front.length + 1) nul = c := by
    rw [List.getD_eq_getElem?_getD,List.getElem?_append_right (by omega),Nat.add_sub_cancel_left]
    rfl
  have hdrop : (front ++ [gd,c]).drop (front.length + 1) = [c] := by
    rw [List.drop_append,Nat.add_sub_cancel_left,List.drop_eq_nil_of_le (by omega)]
    rfl
  obtain ⟨rest,hrest⟩ : ∃ rest, front ++ [gd,c] = d :: rest := by
    cases front with
    | nil => exact ⟨[c],by rw [← Option.some.inj hhead]; rfl⟩
    | cons e front => exact ⟨front ++ [gd,c],by rw [← Option.some.inj hhead]; rfl⟩
  have hend : lookForEnd (front ++ [gd,c]) =
      if c = ' ' then .found .prompt [c] else .waits ⟨[c],false⟩ := by
    unfold lookForEnd
    rw [hnone,hfind]
    simp only [if_pos htwo,hnext,hdrop]
  rw [hrest,look_start hd,← hrest,hend]

/-- A line whose start has been lost is handed on like an echo, with its line feed. -/
theorem look_lost {text : List Char} (hne : text ≠ []) (hcr : cr ∉ text) (hnul : nul ∉ text) :
    look ⟨text ++ [cr,lf],false⟩ = .found (.line text) [] := by
  have hfind : CString.find nul cr (text ++ [cr,lf]) = some text.length :=
    CString.find_append hcr hnul
  have hpos := List.length_pos_iff.mpr hne
  obtain ⟨m,hm⟩ : ∃ m, text.length = m + 1 := ⟨text.length - 1,by omega⟩
  have hnext : (text ++ [cr,lf]).getD (m + 1 + 1) nul = lf := by
    rw [← hm,List.getD_eq_getElem?_getD,List.getElem?_append_right (by omega),
      Nat.add_sub_cancel_left]
    rfl
  have hline : (text ++ [cr,lf]).take (m + 1) = text := by rw [← hm,List.take_left]
  have hdrop : (text ++ [cr,lf]).drop (m + 1 + 1 + 1) = [] := by
    apply List.drop_eq_nil_of_le
    rw [List.length_append,hm]
    exact Nat.le_refl _
  have hstart : lookForStart (text ++ [cr,lf]) = .found (.line text) [] := by
    unfold lookForStart
    rw [hfind,hm]
    simp only [if_pos hnext,hline,hdrop]
  rw [look,if_neg Bool.false_ne_true]
  simp only [hstart]

/-- What becomes of a line when only a part of it up to the character behind a `>` is there: the
rest is handed on as a line of its own. -/
theorem run_cut {front behind inputBuf : List Char} {c d : Char}
    (hsize : inputBuf.length = inputBufSize) (hhead : (front ++ [gd]).head? = some d)
    (hd : d ≠ cr) (hfront : cr ∉ front) (hnul : nul ∉ front) (hgd : gd ∉ front)
    (hcr : cr ∉ c :: behind) (hnul' : nul ∉ c :: behind)
    (hlength : front.length + 2 + behind.length ≤ 189) :
    ∃ r, (start inputBuf false []).run recorder
        [cr :: lf :: (front ++ [gd,c]),behind ++ [cr,lf]] = some r ∧ r.unread = [] ∧
      r.state = (if c = ' ' then [.prompt] else []) ++ [.line (c :: behind)] := by
  have hc : c ≠ cr := Ne.symm (List.ne_of_not_mem_cons hcr)
  have hfirst : (⟨[],false⟩ : Pending).read recorder (cr :: lf :: (front ++ [gd,c])) [] =
      some (0,⟨[c],false⟩,[],if c = ' ' then [.prompt] else []) := by
    have hfits : (cr :: lf :: (front ++ [gd,c])).length ≤ inputBufSize - 1 - 0 := by
      unfold inputBufSize
      simp only [List.length_cons,List.length_append,List.length_nil]
      omega
    have hclear : (⟨[c],false⟩ : Pending).clear = ⟨[c],false⟩ := rfl
    have hloop : processLines recorder (190 + 1 + 1) ⟨cr :: lf :: (front ++ [gd,c]),false⟩ [] =
        some (0,⟨[c],false⟩,if c = ' ' then [.prompt] else []) := by
      rw [processLines,look_cut hhead hd hfront hnul hgd hc]
      by_cases hblank : c = ' '
      · rw [if_pos hblank,if_pos hblank,hblank]
        rfl
      · rw [if_neg hblank,if_neg hblank,outcome]
        simp only [hclear]
    simp only [Pending.read,List.length_nil,List.take_of_length_le hfits,
      List.drop_eq_nil_of_le hfits,List.nil_append]
    exact congrArg (Option.map _) hloop
  obtain ⟨r₁,q₁,ret₁,hstep₁,hread₁,hfilled₁,-⟩ := step_filled (P := recorder)
    (r := start inputBuf false []) (Filled.start hsize false) (cr :: lf :: (front ++ [gd,c]))
  obtain ⟨-,rfl,hunread₁,hstate₁⟩ : 0 = ret₁ ∧ (⟨[c],false⟩ : Pending) = q₁ ∧ [] = r₁.unread ∧
      (if c = ' ' then [.prompt] else []) = r₁.state := by
    have hsame := hfirst.symm.trans hread₁
    simpa only [Option.some.injEq,Prod.mk.injEq] using hsame
  have hsecond (k : List Event) : (⟨[c],false⟩ : Pending).read recorder (behind ++ [cr,lf]) k =
      some (0,⟨[],false⟩,[],k ++ [.line (c :: behind)]) := by
    have hfits : (behind ++ [cr,lf]).length ≤ inputBufSize - 1 - 1 := by
      unfold inputBufSize
      simp only [List.length_cons,List.length_append,List.length_nil]
      omega
    have hloop : processLines recorder (190 + 1 + 1) ⟨c :: behind ++ [cr,lf],false⟩ k =
        some (0,⟨[],false⟩,k ++ [.line (c :: behind)]) := by
      rw [processLines,look_lost (List.cons_ne_nil c behind) hcr hnul']
      rfl
    obtain ⟨e,rest,hsome⟩ := List.exists_cons_of_ne_nil
      (List.append_ne_nil_of_right_ne_nil behind (List.cons_ne_nil cr [lf]))
    rw [hsome] at hfits ⊢
    simp only [Pending.read,List.length_singleton,List.take_of_length_le hfits,
      List.drop_eq_nil_of_le hfits]
    rw [List.singleton_append,← hsome,← List.cons_append]
    exact congrArg (Option.map _) hloop
  obtain ⟨r₂,q₂,ret₂,hstep₂,hread₂,-⟩ := step_filled (P := recorder) hfilled₁
    (behind ++ [cr,lf])
  rw [← hunread₁,List.nil_append,hsecond] at hread₂
  obtain ⟨-,-,hunread₂,hstate₂⟩ : 0 = ret₂ ∧ (⟨[],false⟩ : Pending) = q₂ ∧ [] = r₂.unread ∧
      r₁.state ++ [.line (c :: behind)] = r₂.state := by
    simpa only [Option.some.injEq,Prod.mk.injEq] using hread₂
  refine ⟨r₂,?_,hunread₂.symm,by rw [← hstate₂,← hstate₁]⟩
  rw [run,List.foldlM_cons,hstep₁]
  simp only [Option.bind_eq_bind,Option.bind_some,List.foldlM_cons,hstep₂,List.foldlM_nil]
  rfl

/-- A line of an answer is handed on whole, however its characters arrive, exactly when a `>` can
only be its last character. -/
theorem answer_whole_iff {text inputBuf : List Char} (hsize : inputBuf.length = inputBufSize)
    (hne : text ≠ []) (hcr : cr ∉ text) (hnul : nul ∉ text) (hlength : text.length ≤ 189) :
    (∀ arrivals r, arrivals.flatten = (Sent.answer text).encode →
      (start inputBuf false []).run recorder arrivals = some r → r.unread = [] →
        r.state = [.line text]) ↔ gd ∉ text.dropLast := by
  constructor
  · intro hall hgd
    obtain ⟨front,rest,hinit,hgd'⟩ := List.eq_append_cons_of_mem hgd
    have htext : text = front ++ gd :: (rest ++ [text.getLast hne]) := by
      conv_lhs => rw [← List.dropLast_append_getLast hne,hinit]
      rw [List.append_assoc,List.cons_append]
    obtain ⟨c,behind,hbehind⟩ := List.exists_cons_of_ne_nil
      (List.append_ne_nil_of_right_ne_nil rest (List.cons_ne_nil (text.getLast hne) []))
    rw [hbehind] at htext
    obtain ⟨d,tail,hd⟩ := List.exists_cons_of_ne_nil
      (List.append_ne_nil_of_right_ne_nil front (List.cons_ne_nil gd []))
    have hmem {x : Char} (hx : x ∈ front ++ [gd] ∨ x ∈ c :: behind) : x ∈ text := by
      rw [htext,← List.singleton_append,← List.append_assoc]
      exact List.mem_append.mpr hx
    have hlength' : front.length + 2 + behind.length ≤ 189 := by
      rw [htext] at hlength
      simp only [List.length_append,List.length_cons] at hlength
      omega
    obtain ⟨r,hrun,hunread,hstate⟩ := run_cut hsize (by rw [hd]; rfl)
      (fun heq => hcr (heq ▸ hmem (.inl (by rw [hd]; exact List.mem_cons_self))))
      (fun h => hcr (hmem (.inl (List.mem_append_left _ h))))
      (fun h => hnul (hmem (.inl (List.mem_append_left _ h)))) hgd'
      (fun h => hcr (hmem (.inr h))) (fun h => hnul (hmem (.inr h))) hlength'
    have hwhole := hall _ r ?_ hrun hunread
    · rw [hstate] at hwhole
      have hcut : c :: behind = text := by
        split_ifs at hwhole
        · cases hwhole
        · exact Event.line.inj (List.singleton_inj.mp hwhole)
      have hsame := congrArg List.length (hcut.trans htext)
      simp only [List.length_append,List.length_cons] at hsame
      omega
    · rw [Sent.encode,htext]
      simp
  · intro hgd arrivals r harrivals hrun hunread
    have hwf : ∀ u ∈ [Sent.answer text], u.WellFormed := by
      intro u hu
      rw [List.mem_singleton.mp hu]
      exact ⟨hne,hcr,hnul,hgd,hlength⟩
    have hstream : [Sent.answer text].flatMap encode = (Sent.answer text).encode :=
      List.append_nil _
    obtain ⟨r',read,hrun',hread,hstate⟩ := run_lines recorder (fun _ _ => rfl) hsize hwf []
      arrivals (harrivals.trans hstream.symm ▸ List.prefix_rfl)
    obtain rfl : r' = r := Option.some.inj (hrun'.symm.trans hrun)
    rw [hunread,List.append_nil,harrivals,← hstream] at hread
    rw [hstate,← hread,completed_flatMap,handedOn_recorder]
    rfl

theorem answer_whole_ok :
    (∀ arrivals r, arrivals.flatten = (Sent.answer "OK".toList).encode →
      (start (List.replicate inputBufSize nul) false []).run recorder arrivals = some r →
        r.unread = [] → r.state = [.line "OK".toList]) ↔ gd ∉ "OK".toList.dropLast :=
  answer_whole_iff List.length_replicate (by decide) (by decide) (by decide) (by decide)

end Reading

end Pyrn.Modem
