import Pyrn.Console.CanParser

/-!
# Parsing bracketed CAN frames

The parser of the plotter walks through a line character by character. It takes `d` to `f` for
lower-case hexadecimal digits, so that it reads back the frames whose identifier is printed
without `a`, `b` and `c`.
-/

namespace Pyrn.Console.Bracketed

open Printf

/-- The text of `CANPrintWorkAround` when `REDUCED` is not defined. -/
def canPrintWorkAround (msg : List Char) (bus : UInt8) (id : UInt32) (data : List UInt8)
    (len : UInt8) : Option (List Char) :=
  if 1 ≤ len.toNat ∧ len.toNat ≤ 8 then
    some (msg ++ [' ','['] ++ decimal bus.toNat ++ ['|'] ++ hex 8 id.toNat ++ ['|'] ++
      decimal len.toNat ++ ['|'] ++ printedBytes (data.take len.toNat) ++ [']'])
  else none

/-- `int(c)`, and `int(c,16)`. -/
def intOf (c : Char) : Nat :=
  if '0' ≤ c ∧ c ≤ '9' then c.toNat - '0'.toNat
  else if 'A' ≤ c ∧ c ≤ 'F' then c.toNat - 'A'.toNat + 10
  else c.toNat - 'a'.toNat + 10

inductive ParseState
  | idle
  | bus
  | id
  | len
  | data
  deriving DecidableEq, Repr

/-- The local variables of `canDbgParse`. -/
structure ParseVars where
  rdy : Nat
  state : ParseState
  bus : Nat
  canId : Nat
  dataLen : Nat
  data : List Nat
  val : Nat
  deriving DecidableEq, Repr

/-- The list that the parser returns. -/
structure Frame where
  bus : Nat
  canId : Nat
  dataLen : Nat
  data : List Nat
  deriving DecidableEq, Repr

/-- What one character does: the loop goes on, or the parser returns. -/
inductive ParseStep
  | next (vars : ParseVars)
  | result (d : Option Frame)
  deriving DecidableEq, Repr

def isDecimal (c : Char) : Bool := c ≤ '9' && c ≥ '0'

/-- The characters that are taken for digits of the identifier and of the data. -/
def isDigit (c : Char) : Bool :=
  (c ≤ '9' && c ≥ '0') || (c ≤ 'F' && c ≥ 'A') || (c ≤ 'f' && c ≥ 'd')

def parseStep (vars : ParseVars) (c : Char) : ParseStep :=
  match vars.state with
  | .idle =>
      if c = '[' then
        .next { vars with
          rdy := vars.rdy + 1
          state := if vars.rdy + 1 = 1 then .bus else .idle }
      else .next vars
  | .bus =>
      if c ≠ '|' then
        if isDecimal c = true then .next { vars with bus := vars.bus * 10 + intOf c }
        else .result none
      else .next { vars with state := .id }
  | .id =>
      if c ≠ '|' then
        if isDigit c = true then .next { vars with canId := vars.canId * 16 + intOf c }
        else .result none
      else .next { vars with state := .len }
  | .len =>
      if c ≠ '|' then
        if isDecimal c = true then .next { vars with dataLen := vars.dataLen * 10 + intOf c }
        else .result none
      else .next { vars with state := .data }
  | .data =>
      if c ≠ ' ' ∧ c ≠ ']' then
        if isDigit c = true then .next { vars with val := vars.val * 16 + intOf c }
        else .result none
      else if c ≠ ']' then .next { vars with data := vars.data ++ [vars.val], val := 0 }
      else .result (some ⟨vars.bus,vars.canId,vars.dataLen,vars.data ++ [vars.val]⟩)

/-- The loop of `canDbgParse`. -/
def parseFrom : ParseVars → List Char → Option Frame
  | _, [] => none
  | vars, c :: line =>
      match parseStep vars c with
      | .next vars => parseFrom vars line
      | .result d => d

def canDbgParse (line : List Char) : Option Frame := parseFrom ⟨0,.idle,0,0,0,[],0⟩ line

/-- The digits of a hexadecimal number, in either case. -/
def isHexadecimal (c : Char) : Bool :=
  (c ≤ '9' && c ≥ '0') || (c ≤ 'F' && c ≥ 'A') || (c ≤ 'f' && c ≥ 'a')

theorem isHexadecimal_of_isDigit {c : Char} (h : isDigit c = true) : isHexadecimal c = true := by
  simp only [isDigit,isHexadecimal,Bool.or_eq_true,Bool.and_eq_true,decide_eq_true_eq] at h ⊢
  rcases h with (h | h) | ⟨hhigh,hlow⟩
  · exact .inl (.inl h)
  · exact .inl (.inr h)
  · exact .inr ⟨hhigh,Char.le_trans (by decide) hlow⟩

/-- A field up to its bar: every character has to be of the class of the field. -/
theorem parseFrom_field {ok : Char → Bool} {digit : ParseVars → Char → ParseVars}
    {bar : ParseVars → ParseVars} {state : ParseState}
    (hstep : ∀ vars c, vars.state = state → parseStep vars c =
      if c ≠ '|' then if ok c = true then .next (digit vars c) else .result none
      else .next (bar vars))
    (hstays : ∀ vars c, (digit vars c).state = vars.state) (field rest : List Char)
    (hfield : '|' ∉ field) (vars : ParseVars) (hstate : vars.state = state) :
    parseFrom vars (field ++ '|' :: rest) =
      if field.all ok = true then parseFrom (bar (field.foldl digit vars)) rest else none := by
  induction field generalizing vars with
  | nil =>
    rw [List.nil_append,parseFrom,hstep vars '|' hstate,if_neg (not_not.mpr rfl)]
    rfl
  | cons c field ih =>
    have hc : c ≠ '|' := fun heq => hfield (heq ▸ List.mem_cons_self)
    rw [List.cons_append,parseFrom,hstep vars c hstate,if_pos hc,List.all_cons,List.foldl_cons]
    cases hok : ok c with
    | true =>
      rw [if_pos rfl,Bool.true_and]
      exact ih (fun hmem => hfield (List.mem_cons_of_mem _ hmem)) _ ((hstays vars c).trans hstate)
    | false => rfl

/-- In front of the first bracket nothing happens. -/
theorem parseFrom_idle (front rest : List Char) (hfront : '[' ∉ front) (vars : ParseVars)
    (hstate : vars.state = .idle) (hrdy : vars.rdy = 0) :
    parseFrom vars (front ++ '[' :: rest) =
      parseFrom { vars with rdy := 1, state := .bus } rest := by
  induction front generalizing vars with
  | nil =>
    rw [List.nil_append,parseFrom,parseStep,hstate,hrdy]
    rfl
  | cons c front ih =>
    have hc : c ≠ '[' := fun heq => hfront (heq ▸ List.mem_cons_self)
    rw [List.cons_append,parseFrom,parseStep,hstate]
    simp only [if_neg hc]
    exact ih (fun hmem => hfront (List.mem_cons_of_mem _ hmem)) vars hstate hrdy

theorem parseFrom_bus (field rest : List Char) (hfield : '|' ∉ field) (vars : ParseVars)
    (hstate : vars.state = .bus) : parseFrom vars (field ++ '|' :: rest) =
      if field.all isDecimal = true then
        parseFrom { vars with bus := readDigits intOf 10 vars.bus field, state := .id } rest
      else none := by
  have hfold (field : List Char) (vars : ParseVars) :
      field.foldl (fun vars c => { vars with bus := vars.bus * 10 + intOf c }) vars =
        { vars with bus := readDigits intOf 10 vars.bus field } := by
    induction field generalizing vars with
    | nil => rfl
    | cons c field ih => rw [List.foldl_cons,ih]; rfl
  have hstep (vars : ParseVars) (c : Char) (hstate : vars.state = .bus) : parseStep vars c =
      if c ≠ '|' then
        if isDecimal c = true then .next { vars with bus := vars.bus * 10 + intOf c }
        else .result none
      else .next { vars with state := .id } := by rw [parseStep,hstate]
  rw [parseFrom_field hstep (fun _ _ => rfl) field rest hfield vars hstate,hfold]

theorem parseFrom_id (field rest : List Char) (hfield : '|' ∉ field) (vars : ParseVars)
    (hstate : vars.state = .id) : parseFrom vars (field ++ '|' :: rest) =
      if field.all isDigit = true then
        parseFrom { vars with canId := readDigits intOf 16 vars.canId field, state := .len } rest
      else none := by
  have hfold (field : List Char) (vars : ParseVars) :
      field.foldl (fun vars c => { vars with canId := vars.canId * 16 + intOf c }) vars =
        { vars with canId := readDigits intOf 16 vars.canId field } := by
    induction field generalizing vars with
    | nil => rfl
    | cons c field ih => rw [List.foldl_cons,ih]; rfl
  have hstep (vars : ParseVars) (c : Char) (hstate : vars.state = .id) : parseStep vars c =
      if c ≠ '|' then
        if isDigit c = true then .next { vars with canId := vars.canId * 16 + intOf c }
        else .result none
      else .next { vars with state := .len } := by rw [parseStep,hstate]
  rw [parseFrom_field hstep (fun _ _ => rfl) field rest hfield vars hstate,hfold]

theorem parseFrom_len (field rest : List Char) (hfield : '|' ∉ field) (vars : ParseVars)
    (hstate : vars.state = .len) : parseFrom vars (field ++ '|' :: rest) =
      if field.all isDecimal = true then
        parseFrom
          { vars with dataLen := readDigits intOf 10 vars.dataLen field, state := .data } rest
      else none := by
  have hfold (field : List Char) (vars : ParseVars) :
      field.foldl (fun vars c => { vars with dataLen := vars.dataLen * 10 + intOf c }) vars =
        { vars with dataLen := readDigits intOf 10 vars.dataLen field } := by
    induction field generalizing vars with
    | nil => rfl
    | cons c field ih => rw [List.foldl_cons,ih]; rfl
  have hstep (vars : ParseVars) (c : Char) (hstate : vars.state = .len) : parseStep vars c =
      if c ≠ '|' then
        if isDecimal c = true then .next { vars with dataLen := vars.dataLen * 10 + intOf c }
        else .result none
      else .next { vars with state := .data } := by rw [parseStep,hstate]
  rw [parseFrom_field hstep (fun _ _ => rfl) field rest hfield vars hstate,hfold]

/-- The line of a frame with the given fields and whatever is behind the bar of the length. -/
def line (front busField idField lenField rest : List Char) : List Char :=
  front ++ '[' :: (busField ++ '|' :: (idField ++ '|' :: (lenField ++ '|' :: rest)))

/-- The line in front of the data: the fields are read when they pass, in their bases. -/
theorem canDbgParse_line {front busField idField lenField : List Char} (rest : List Char)
    (hfront : '[' ∉ front) (hbus : '|' ∉ busField) (hid : '|' ∉ idField) (hlen : '|' ∉ lenField) :
    canDbgParse (line front busField idField lenField rest) =
      if busField.all isDecimal = true ∧ idField.all isDigit = true ∧
          lenField.all isDecimal = true then
        parseFrom ⟨1,.data,readDigits intOf 10 0 busField,readDigits intOf 16 0 idField,
          readDigits intOf 10 0 lenField,[],0⟩ rest
      else none := by
  rw [canDbgParse,line,parseFrom_idle _ _ hfront _ rfl rfl,parseFrom_bus _ _ hbus _ rfl,
    parseFrom_id _ _ hid _ rfl,parseFrom_len _ _ hlen _ rfl]
  simp only [ite_and]

/-- Digits of the data. -/
theorem parseFrom_digits (word rest : List Char) (hword : word.all isDigit = true)
    (vars : ParseVars) (hstate : vars.state = .data) : parseFrom vars (word ++ rest) =
      parseFrom { vars with val := readDigits intOf 16 vars.val word } rest := by
  induction word generalizing vars with
  | nil => rfl
  | cons c word ih =>
    obtain ⟨hc,hrest⟩ := Bool.and_eq_true_iff.mp hword
    have hseparator : c ≠ ' ' ∧ c ≠ ']' := by
      constructor <;> rintro rfl <;> exact absurd hc (by decide)
    rw [List.cons_append,parseFrom,parseStep,hstate]
    simp only [if_pos hseparator,if_pos hc]
    exact ih hrest _ rfl

/-- The bytes of a frame up to the closing bracket. -/
theorem parseFrom_words (words : List (List Char))
    (hwords : ∀ word ∈ words, word.all isDigit = true) (hsome : words ≠ []) (rest : List Char)
    (vars : ParseVars) (hstate : vars.state = .data) (hval : vars.val = 0) :
    parseFrom vars ([' '].intercalate words ++ ']' :: rest) =
      some ⟨vars.bus,vars.canId,vars.dataLen,vars.data ++ words.map (readDigits intOf 16 0)⟩ := by
  induction words generalizing vars with
  | nil => exact absurd rfl hsome
  | cons word words ih =>
    have hword := hwords word List.mem_cons_self
    cases words with
    | nil =>
      rw [List.intercalate_singleton,parseFrom_digits word _ hword vars hstate,hval,parseFrom,
        parseStep,hstate]
      rfl
    | cons next words =>
      have hlater := ih (fun word hmem => hwords word (List.mem_cons_of_mem _ hmem))
        (List.cons_ne_nil _ _)
        { vars with
          state := .data, data := vars.data ++ [readDigits intOf 16 0 word], val := 0 } rfl rfl
      rw [List.intercalate_cons_cons,List.append_assoc,List.append_assoc,
        parseFrom_digits word _ hword vars hstate,hval,List.singleton_append,parseFrom,parseStep,
        hstate]
      simp only at hlater ⊢
      rw [if_neg (by decide),if_pos (by decide)]
      simp only
      rw [hlater,List.map_cons,List.append_assoc]
      rfl

/-- A character of the data that is no digit ends the parser. -/
theorem parseFrom_bad (field rest : List Char) (hfield : ']' ∉ field)
    (hbad : ∃ c ∈ field, c ≠ ' ' ∧ isDigit c = false) (vars : ParseVars)
    (hstate : vars.state = .data) : parseFrom vars (field ++ rest) = none := by
  induction field generalizing vars with
  | nil =>
    obtain ⟨c,hmem,-⟩ := hbad
    cases hmem
  | cons c field ih =>
    have hclose : c ≠ ']' := fun heq => hfield (heq ▸ List.mem_cons_self)
    have hlater : ']' ∉ field := fun hmem => hfield (List.mem_cons_of_mem _ hmem)
    rw [List.cons_append,parseFrom,parseStep,hstate]
    by_cases hblank : c = ' '
    · have hseparator : ¬(c ≠ ' ' ∧ c ≠ ']') := fun h => h.1 hblank
      simp only [if_neg hseparator,if_pos hclose]
      refine ih hlater ?_ _ rfl
      obtain ⟨b,hmem,hb⟩ := hbad
      rcases List.mem_cons.mp hmem with rfl | hmem
      · exact absurd hblank hb.1
      · exact ⟨b,hmem,hb⟩
    · have hseparator : c ≠ ' ' ∧ c ≠ ']' := ⟨hblank,hclose⟩
      simp only [if_pos hseparator]
      by_cases hc : isDigit c = true
      · simp only [if_pos hc]
        refine ih hlater ?_ _ rfl
        obtain ⟨b,hmem,hb⟩ := hbad
        rcases List.mem_cons.mp hmem with rfl | hmem
        · exact absurd (hc.symm.trans hb.2) (by decide)
        · exact ⟨b,hmem,hb⟩
      · simp only [if_neg hc]

theorem intOf_digitChar : ∀ d < 16, intOf (Nat.digitChar d) = d := by
  decide

theorem intOf_upper : ∀ d < 16, intOf (Nat.digitChar d).toUpper = d := by
  decide

theorem isDigit_upper : ∀ d < 16, isDigit (Nat.digitChar d).toUpper = true := by
  decide

/-- The lower-case digits that the parser does not know. -/
theorem isDigit_digitChar : ∀ d < 16, isDigit (Nat.digitChar d) = true ↔
    Nat.digitChar d ≠ 'a' ∧ Nat.digitChar d ≠ 'b' ∧ Nat.digitChar d ≠ 'c' := by
  decide

theorem isDecimal_of_isDigit {c : Char} (h : c.isDigit = true) : isDecimal c = true := by
  rw [Char.isDigit,Bool.and_eq_true,decide_eq_true_eq,decide_eq_true_eq] at h
  rw [isDecimal,Bool.and_eq_true,decide_eq_true_eq,decide_eq_true_eq]
  exact ⟨h.2,h.1⟩

/-- A number in decimal digits passes as a field and is read back. -/
theorem decimal_field (n : Nat) : (decimal n).all isDecimal = true ∧ '|' ∉ decimal n ∧
    readDigits intOf 10 0 (decimal n) = n := by
  have hdigits : decimal n = Nat.toDigits 10 n := by
    rw [decimal,if_pos (Int.natCast_nonneg n),Int.toNat_natCast]
  have hall : ∀ c ∈ Nat.toDigits 10 n, c.isDigit = true := fun c hmem =>
    Nat.isDigit_of_mem_toDigits (by decide) (by decide) hmem
  rw [hdigits]
  refine ⟨List.all_eq_true.mpr fun c hmem => isDecimal_of_isDigit (hall c hmem),fun hbar => ?_,?_⟩
  · exact absurd (hall '|' hbar) (by decide)
  · exact readDigits_toDigits (by decide) (fun d hd => intOf_digitChar d (by omega)) n

/-- An identifier in eight digits passes as a field when it has no `a`, `b` or `c`. -/
theorem hex_field (id : UInt32) : '|' ∉ hex 8 id.toNat ∧
    readDigits intOf 16 0 (hex 8 id.toNat) = id.toNat ∧
    ((hex 8 id.toNat).all isDigit = true ↔
      ∀ c ∈ hex 8 id.toNat, c ≠ 'a' ∧ c ≠ 'b' ∧ c ≠ 'c') := by
  have hfits : id.toNat < 16 ^ 8 := id.toNat_lt
  rw [hex_eq (by decide) hfits]
  refine ⟨fun hbar => ?_,?_,?_⟩
  · obtain ⟨k,-,hk⟩ := mem_digits.mp hbar
    exact digitChar_ne_bar _ (Nat.mod_lt _ (by decide)) hk.symm
  · have hread := @readDigits_digits intOf 16 (fun c => c) (by decide) intOf_digitChar 8 id.toNat
    rwa [List.map_id',Nat.mod_eq_of_lt hfits] at hread
  · rw [List.all_eq_true]
    refine forall₂_congr fun c hmem => ?_
    obtain ⟨k,-,rfl⟩ := mem_digits.mp hmem
    exact isDigit_digitChar _ (Nat.mod_lt _ (by decide))

theorem upperByte_word (byte : UInt8) : (upperByte byte).all isDigit = true ∧
    readDigits intOf 16 0 (upperByte byte) = byte.toNat := by
  constructor
  · rw [upperByte,List.all_eq_true]
    intro c hmem
    obtain ⟨d,hd,rfl⟩ := List.mem_map.mp hmem
    obtain ⟨k,-,rfl⟩ := mem_digits.mp hd
    exact isDigit_upper _ (Nat.mod_lt _ (by decide))
  · have hfits : byte.toNat < 16 ^ 2 := byte.toNat_lt
    have hread := readDigits_digits (by decide) intOf_upper 2 byte.toNat
    rwa [Nat.mod_eq_of_lt hfits] at hread

/-- The printed bytes up to the closing bracket. -/
theorem parseFrom_printedBytes {data : List UInt8} (hdata : data ≠ []) (rest : List Char)
    (vars : ParseVars) (hstate : vars.state = .data) (hval : vars.val = 0) :
    parseFrom vars (printedBytes data ++ ']' :: rest) =
      some ⟨vars.bus,vars.canId,vars.dataLen,vars.data ++ data.map UInt8.toNat⟩ := by
  have hall : ∀ word ∈ data.map upperByte, word.all isDigit = true := by
    intro word hmem
    obtain ⟨byte,-,rfl⟩ := List.mem_map.mp hmem
    exact (upperByte_word byte).1
  have hsome : data.map upperByte ≠ [] := fun hnil => hdata (List.map_eq_nil_iff.mp hnil)
  have hbytes : (data.map upperByte).map (readDigits intOf 16 0) = data.map UInt8.toNat := by
    rw [List.map_map]
    refine List.map_congr_left fun byte _ => ?_
    rw [Function.comp_apply,(upperByte_word byte).2]
  rw [printedBytes_eq,parseFrom_words _ hall hsome rest vars hstate hval,hbytes]

/-- A printed frame, behind any text without a bracket, is read back unless its identifier has a
digit that the parser does not know. -/
theorem canDbgParse_printed {front msg : List Char} (hfront : '[' ∉ front) (hmsg : '[' ∉ msg)
    (rest : List Char) (bus : UInt8) (id : UInt32) {data : List UInt8}
    (hdata : 1 ≤ data.length ∧ data.length ≤ 8) :
    (canPrintWorkAround msg bus id data (UInt8.ofNat data.length)).map (fun text =>
        canDbgParse (front ++ text ++ rest)) =
      some (if (hex 8 id.toNat).all isDigit = true then
        some ⟨bus.toNat,id.toNat,data.length,data.map UInt8.toNat⟩ else none) := by
  have hlen : (UInt8.ofNat data.length).toNat = data.length := by
    rw [UInt8.toNat_ofNat']
    omega
  obtain ⟨hbusAll,hbusBar,hbus⟩ := decimal_field bus.toNat
  obtain ⟨hlenAll,hlenBar,hlenRead⟩ := decimal_field data.length
  obtain ⟨hidBar,hid,-⟩ := hex_field id
  have hline : front ++ (msg ++ [' ','['] ++ decimal bus.toNat ++ ['|'] ++ hex 8 id.toNat ++
      ['|'] ++ decimal data.length ++ ['|'] ++ printedBytes data ++ [']']) ++ rest =
      line (front ++ msg ++ [' ']) (decimal bus.toNat) (hex 8 id.toNat) (decimal data.length)
        (printedBytes data ++ ']' :: rest) := by
    simp only [line,List.append_assoc,List.cons_append,List.nil_append]
  have hopening : '[' ∉ front ++ msg ++ [' '] := by
    simp only [List.mem_append,not_or]
    exact ⟨⟨hfront,hmsg⟩,by decide⟩
  have hwords := parseFrom_printedBytes (List.length_pos_iff.mp hdata.1) rest
    ⟨1,.data,bus.toNat,id.toNat,data.length,[],0⟩ rfl rfl
  rw [canPrintWorkAround,hlen,if_pos hdata,List.take_length,Option.map_some,hline,
    canDbgParse_line _ hopening hbusBar hidBar hlenBar,hbus,hid,hlenRead,hwords]
  simp only [hbusAll,hlenAll,true_and,and_true,List.nil_append]

/-- A character that does not belong in its field. -/
def HasBadField (busField idField lenField dataField : List Char) : Prop :=
  (∃ c ∈ busField ++ lenField, isDecimal c = false) ∨
    (∃ c ∈ idField, isHexadecimal c = false) ∨
    ∃ c ∈ dataField, c ≠ ' ' ∧ isHexadecimal c = false

theorem canDbgParse_bad {front busField idField lenField dataField : List Char} (rest : List Char)
    (hfront : '[' ∉ front) (hbus : '|' ∉ busField) (hid : '|' ∉ idField) (hlen : '|' ∉ lenField)
    (hdata : ']' ∉ dataField) (hbad : HasBadField busField idField lenField dataField) :
    canDbgParse (line front busField idField lenField (dataField ++ ']' :: rest)) = none := by
  have hnot {ok : Char → Bool} {field : List Char} (h : ∃ c ∈ field, ok c = false) :
      ¬field.all ok = true := by
    obtain ⟨c,hmem,hc⟩ := h
    intro hall
    exact absurd ((List.all_eq_true.mp hall c hmem).symm.trans hc) (by decide)
  have hunknown {c : Char} (h : isHexadecimal c = false) : isDigit c = false := by
    cases hc : isDigit c with
    | true => exact absurd ((isHexadecimal_of_isDigit hc).symm.trans h) (by decide)
    | false => rfl
  rw [canDbgParse_line _ hfront hbus hid hlen]
  rcases hbad with ⟨c,hmem,hc⟩ | ⟨c,hmem,hc⟩ | ⟨c,hmem,hblank,hc⟩
  · rcases List.mem_append.mp hmem with hmem | hmem
    · rw [if_neg fun h => hnot ⟨c,hmem,hc⟩ h.1]
    · rw [if_neg fun h => hnot ⟨c,hmem,hc⟩ h.2.2]
  · rw [if_neg fun h => hnot ⟨c,hmem,hunknown hc⟩ h.2.1]
  · rw [parseFrom_bad dataField _ hdata ⟨c,hmem,hblank,hunknown hc⟩ _ rfl,ite_self]

/-- The parser reads back what is printed, for every bus, payload and text in front, exactly when
none of the digits `a`, `b` and `c` is printed for the identifier; and a line with a character
that does not belong in its field is never taken for a frame. -/
theorem bracketed_exact {front msg : List Char} (hfront : '[' ∉ front) (hmsg : '[' ∉ msg)
    (rest : List Char) (bus : UInt8) (id : UInt32) {data : List UInt8}
    (hdata : 1 ≤ data.length ∧ data.length ≤ 8) :
    ((canPrintWorkAround msg bus id data (UInt8.ofNat data.length)).map (fun text =>
        canDbgParse (front ++ text ++ rest)) =
          some (some ⟨bus.toNat,id.toNat,data.length,data.map UInt8.toNat⟩) ∧
      ∀ front busField idField lenField dataField rest, '[' ∉ front → '|' ∉ busField →
        '|' ∉ idField → '|' ∉ lenField → ']' ∉ dataField →
          HasBadField busField idField lenField dataField →
            canDbgParse (line front busField idField lenField (dataField ++ ']' :: rest)) = none) ↔
      ∀ c ∈ hex 8 id.toNat, c ≠ 'a' ∧ c ≠ 'b' ∧ c ≠ 'c' := by
  rw [canDbgParse_printed hfront hmsg rest bus id hdata,Option.some_inj,← (hex_field id).2.2]
  constructor
  · rintro ⟨hparsed,-⟩
    by_contra hunknown
    rw [if_neg hunknown] at hparsed
    cases hparsed
  · intro hknown
    refine ⟨if_pos hknown,?_⟩
    intro front busField idField lenField dataField rest hfront hbus hid hlen hdata hbad
    exact canDbgParse_bad rest hfront hbus hid hlen hdata hbad

theorem bracketed_exact_example :
    (canPrintWorkAround ['R','X'] 2 0x623 [0x78,0x01,0x5A,0x94] 4).map (fun text =>
        canDbgParse (['2','7',':',' '] ++ text ++ [])) =
      some (some ⟨2,0x623,4,[0x78,0x01,0x5A,0x94]⟩) := by
  have hdigits : (hex 8 0x623).all (fun c => c ≠ 'a' ∧ c ≠ 'b' ∧ c ≠ 'c') = true := by decide
  refine ((bracketed_exact (show '[' ∉ ['2','7',':',' '] by decide) (by decide) [] 2 0x623
    ⟨by decide,by decide⟩).mpr fun c hmem => ?_).1
  exact of_decide_eq_true (List.all_eq_true.mp hdigits c hmem)

/-- An identifier with the digits `a` and `b` is refused. -/
theorem bracketed_refused :
    let parsed := (canPrintWorkAround ['R','X'] 2 0x7AB [0x78,0x01] 2).map canDbgParse
    parsed = some none ∧ parsed ≠ some (some ⟨2,0x7AB,2,[0x78,0x01]⟩) := by
  decide

end Pyrn.Console.Bracketed
