import Pyrn.Console.ConvertData
import Mathlib.Logic.Function.Basic

/-!
# Values of tracked addresses

`storeResults` converts the columns of a frame whose address is tracked. It comes to its end
exactly when every column begins inside the frame. Whatever the frames are, the values lie on the
axes that `initVisu` has drawn for them, and the lower half of an axis stays empty.
-/

namespace Pyrn.Console

open Printf PackedStruct

/-- A tuple of an address, the position and number of its bytes and their converter, with the values
stored for it. -/
structure Column where
  start : Nat
  size : Nat
  converter : Nat
  results : List Int
  deriving DecidableEq, Repr

def Column.append (column : Column) (convertedData : Int) : Column :=
  { column with results := column.results ++ [convertedData] }

/-- The loop of `storeResults`. An error leaves the later columns as they are. -/
def storeColumns (dataRes : List (List Char)) : List Column → List Column × Bool
  | [] => ([],true)
  | column :: rest =>
      match convertData (slice dataRes column.start (column.start + column.size))
        column.converter with
      | some convertedData =>
          let (later,done) := storeColumns dataRes rest
          (column.append convertedData :: later,done)
      | none => (column :: rest,false)

/-- The parser's dictionary, and `changed` unless a conversion has failed. -/
def storeResults (data : List Char → Option (List Column)) (result : Parsed) :
    (List Char → Option (List Column)) × Option Bool :=
  match data result.addr with
  | none => (data,some false)
  | some columns =>
      let (stored,done) := storeColumns result.data columns
      (Function.update data result.addr (some stored),if done = true then some true else none)

/-- The limits `mini` and `maxi` of the axis on which `initVisu` draws the values. -/
def axis (le co : Nat) : Int × Int :=
  let maxi : Int := 2 ^ (8 * le)
  if co &&& twoCompl ≠ 0 then (-(maxi >>> (1 : Nat)),maxi >>> (1 : Nat)) else (0,maxi)

/-- The bytes of a column, fewer when the frame ends before. -/
def Column.bytes (column : Column) (frame : List HexByte) : List HexByte :=
  slice frame column.start (column.start + column.size)

/-- A column has bytes of a frame. -/
def Column.beginsIn (frame : List HexByte) (column : Column) : Bool :=
  column.start < frame.length && 0 < column.size

/-- The number of a column, without its sign bit when it has one. -/
def Column.reading (column : Column) (frame : List HexByte) : Nat :=
  let bytes := column.bytes frame
  if column.converter &&& twoCompl ≠ 0
  then number bytes column.converter % 2 ^ (8 * bytes.length - 1)
  else number bytes column.converter

theorem Column.bytes_length (column : Column) (frame : List HexByte) :
    (column.bytes frame).length = min column.size (frame.length - column.start) := by
  rw [bytes,slice,List.length_take,List.length_drop,Nat.add_sub_cancel_left]

theorem Column.bytes_ne_nil_iff (column : Column) (frame : List HexByte) :
    column.bytes frame ≠ [] ↔ column.beginsIn frame = true := by
  rw [← List.length_pos_iff,bytes_length,beginsIn,Bool.and_eq_true,decide_eq_true_eq,
    decide_eq_true_eq]
  omega

theorem Column.slice_text (column : Column) (frame : List HexByte) :
    slice (frame.map HexByte.text) column.start (column.start + column.size) =
      (column.bytes frame).map HexByte.text := by
  rw [slice,bytes,slice,List.map_take,List.map_drop]

theorem convertData_nil (converter : Nat) : convertData [] converter = none := by
  have hnone : hexInt [] = none := by decide
  simp only [convertData,List.reverse_nil,ite_self,List.flatten_nil,hnone,Option.bind_eq_bind,
    Option.bind_none]

/-- A column of a frame comes out without its sign bit, and an empty one is an error. -/
theorem convertData_column (column : Column) (frame : List HexByte) :
    convertData (slice (frame.map HexByte.text) column.start (column.start + column.size))
        column.converter =
      if column.beginsIn frame = true then some (column.reading frame : Int) else none := by
  rw [column.slice_text]
  split_ifs with hbegins
  · rw [← column.bytes_ne_nil_iff] at hbegins
    have hpos : 0 < (column.bytes frame).length := List.length_pos_iff.mpr hbegins
    have hnumber := number_lt (column.bytes frame) column.converter
    rw [LittleEndian.two_pow_half hpos] at hnumber
    rw [convertData_text hbegins,Column.reading,Option.some_inj]
    by_cases hflag : column.converter &&& twoCompl ≠ 0
    · rw [if_pos hflag]
      by_cases hsign : 2 ^ (8 * (column.bytes frame).length - 1) ≤
          number (column.bytes frame) column.converter
      · rw [if_pos ⟨hflag,hsign⟩,Nat.mod_eq_sub_mod hsign,Nat.mod_eq_of_lt (by omega),
          Nat.cast_sub hsign]
        push_cast
        rfl
      · rw [if_neg fun h => hsign h.2,Nat.mod_eq_of_lt (Nat.lt_of_not_le hsign)]
    · rw [if_neg hflag,if_neg fun h => hflag h.1]
  · rw [← column.bytes_ne_nil_iff,not_not] at hbegins
    rw [hbegins,List.map_nil,convertData_nil]

/-- The columns in front of the first one without a byte get a value each. -/
theorem storeColumns_eq (frame : List HexByte) (columns : List Column) :
    storeColumns (frame.map HexByte.text) columns =
      ((columns.takeWhile (Column.beginsIn frame)).map
          (fun column => column.append (column.reading frame)) ++
        columns.dropWhile (Column.beginsIn frame),
      columns.all (Column.beginsIn frame)) := by
  induction columns with
  | nil => rfl
  | cons column rest ih =>
    rw [storeColumns,convertData_column]
    by_cases hbegins : column.beginsIn frame = true
    · rw [if_pos hbegins,ih,List.takeWhile_cons_of_pos hbegins,List.dropWhile_cons_of_pos hbegins,
        List.all_cons,hbegins]
      rfl
    · rw [if_neg hbegins,List.takeWhile_cons_of_neg hbegins,List.dropWhile_cons_of_neg hbegins,
        List.all_cons,Bool.eq_false_iff.mpr hbegins]
      rfl

/-- A frame of a tracked address is stored as a whole when every column has bytes of it. -/
theorem storeResults_done_iff (data : List Char → Option (List Column)) (addr dataLen : List Char)
    (frame : List HexByte) :
    (storeResults data ⟨addr,dataLen,frame.map HexByte.text⟩).2 = some true ↔
      ∃ columns, data addr = some columns ∧ ∀ column ∈ columns, column.beginsIn frame = true := by
  rw [storeResults]
  cases hcolumns : data addr with
  | none => simp
  | some columns =>
    simp only [storeColumns_eq,Option.some_inj,exists_eq_left',← List.all_eq_true]
    split_ifs with hall
    · exact iff_of_true rfl hall
    · exact iff_of_false (by simp) hall

theorem storeResults_other (data : List Char → Option (List Column)) (result : Parsed)
    {addr : List Char} (haddr : addr ≠ result.addr) :
    (storeResults data result).1 addr = data addr := by
  rw [storeResults]
  cases data result.addr with
  | none => rfl
  | some columns => exact Function.update_of_ne haddr _ _

theorem storeResults_self {data : List Char → Option (List Column)} {addr : List Char}
    {columns : List Column} (hcolumns : data addr = some columns) (dataLen : List Char)
    (frame : List HexByte) :
    (storeResults data ⟨addr,dataLen,frame.map HexByte.text⟩).1 addr =
      some ((columns.takeWhile (Column.beginsIn frame)).map
          (fun column => column.append (column.reading frame)) ++
        columns.dropWhile (Column.beginsIn frame)) := by
  rw [storeResults]
  simp only [hcolumns,storeColumns_eq]
  exact Function.update_self _ _ _

/-- Every value of a column lies on the upper part of its axis. -/
def Column.OnAxis (column : Column) : Prop :=
  ∀ v ∈ column.results, 0 ≤ v ∧ v ≤ (axis column.size column.converter).2

/-- A dictionary whose columns can be drawn. -/
def Drawable (data : List Char → Option (List Column)) : Prop :=
  ∀ addr columns, data addr = some columns → ∀ column ∈ columns, column.OnAxis

/-- The upper end of an axis is the end of the range, without the sign bit when there is one. -/
theorem axis_maxi {le : Nat} (hle : 0 < le) (co : Nat) :
    (axis le co).2 = if co &&& twoCompl ≠ 0 then 2 ^ (8 * le - 1) else 2 ^ (8 * le) := by
  have hrange : (2 ^ (8 * le) : Int) = 2 * 2 ^ (8 * le - 1) := by
    exact_mod_cast LittleEndian.two_pow_half hle
  have hhalf : (2 ^ (8 * le) : Int) >>> (1 : Nat) = 2 ^ (8 * le - 1) := by
    rw [Int.shiftRight_eq_div_pow,hrange]
    exact Int.mul_ediv_cancel_left _ (by decide)
  rw [axis]
  split_ifs
  · exact hhalf
  · rfl

theorem zero_le_axis (le co : Nat) : 0 ≤ (axis le co).2 := by
  have hmaxi : (0 : Int) ≤ 2 ^ (8 * le) := Int.pow_nonneg (by decide)
  rw [axis]
  split_ifs
  · exact Int.le_shiftRight_of_nonneg hmaxi
  · exact hmaxi

theorem Column.reading_le {column : Column} {frame : List HexByte}
    (hbegins : column.beginsIn frame = true) :
    (column.reading frame : Int) ≤ (axis column.size column.converter).2 := by
  have hpos := List.length_pos_iff.mpr ((column.bytes_ne_nil_iff frame).mpr hbegins)
  have hlen : (column.bytes frame).length ≤ column.size := by
    rw [bytes_length]
    exact Nat.min_le_left _ _
  rw [axis_maxi (Nat.lt_of_lt_of_le hpos hlen),reading]
  split_ifs
  · have hmod := Nat.mod_lt (number (column.bytes frame) column.converter)
      (Nat.two_pow_pos (8 * (column.bytes frame).length - 1))
    have hmono : 2 ^ (8 * (column.bytes frame).length - 1) ≤ 2 ^ (8 * column.size - 1) :=
      Nat.pow_le_pow_right (by decide) (by omega)
    exact_mod_cast Nat.le_of_lt (Nat.lt_of_lt_of_le hmod hmono)
  · have hmono : 2 ^ (8 * (column.bytes frame).length) ≤ 2 ^ (8 * column.size) :=
      Nat.pow_le_pow_right (by decide) (by omega)
    exact_mod_cast Nat.le_of_lt (Nat.lt_of_lt_of_le (number_lt _ _) hmono)

theorem Column.onAxis_append {column : Column} (h : column.OnAxis) {frame : List HexByte}
    (hbegins : column.beginsIn frame = true) :
    (column.append (column.reading frame)).OnAxis := by
  intro v hv
  rcases List.mem_append.mp hv with hv | hv
  · exact h v hv
  · rw [List.mem_singleton.mp hv]
    exact ⟨Int.natCast_nonneg _,reading_le hbegins⟩

theorem storeResults_drawable {data : List Char → Option (List Column)} (h : Drawable data)
    (addr dataLen : List Char) (frame : List HexByte) :
    Drawable (storeResults data ⟨addr,dataLen,frame.map HexByte.text⟩).1 := by
  intro other columns hother column hmem
  by_cases haddr : other = addr
  · subst haddr
    cases htracked : data other with
    | none =>
      rw [storeResults] at hother
      simp only [htracked] at hother
      cases hother
    | some tracked =>
      rw [storeResults_self htracked] at hother
      obtain rfl := Option.some_inj.mp hother
      rcases List.mem_append.mp hmem with hmem | hmem
      · obtain ⟨before,hbefore,rfl⟩ := List.mem_map.mp hmem
        have hbegins := List.mem_takeWhile_imp hbefore
        have hbefore := (List.takeWhile_sublist _).mem hbefore
        exact Column.onAxis_append (h other tracked htracked before hbefore) hbegins
      · exact h other tracked htracked column ((List.dropWhile_sublist _).mem hmem)
  · rw [storeResults_other data _ haddr] at hother
    exact h other columns hother column hmem

/-- The columns of `initData`, each with as many zeros as points are drawn. -/
def initData (c : List Char → Option (List (Nat × Nat × Nat))) :
    List Char → Option (List Column) :=
  fun addr => (c addr).map fun tups =>
    tups.map fun (st,le,co) => ⟨st,le,co,List.replicate 100 0⟩

theorem initData_drawable (c : List Char → Option (List (Nat × Nat × Nat))) :
    Drawable (initData c) := by
  intro addr columns hcolumns column hmem v hv
  obtain ⟨tups,-,rfl⟩ := Option.map_eq_some_iff.mp hcolumns
  obtain ⟨⟨st,le,co⟩,-,rfl⟩ := List.mem_map.mp hmem
  rw [List.eq_of_mem_replicate hv]
  exact ⟨Int.le_refl 0,zero_le_axis le co⟩

/-- A captured frame: its address and length as they stand in the line, and its bytes. -/
structure Captured where
  addr : List Char
  dataLen : List Char
  frame : List HexByte

def Captured.parsed (captured : Captured) : Parsed :=
  ⟨captured.addr,captured.dataLen,captured.frame.map HexByte.text⟩

/-- Whatever is captured, in whatever order and with whatever errors, the values lie on the upper
part of their axes. -/
theorem stored_drawable (c : List Char → Option (List (Nat × Nat × Nat)))
    (captures : List Captured) :
    Drawable (captures.foldl (fun data captured => (storeResults data captured.parsed).1)
      (initData c)) := by
  have hrun (data : List Char → Option (List Column)) (h : Drawable data) :
      Drawable (captures.foldl (fun data captured => (storeResults data captured.parsed).1)
        data) := by
    induction captures generalizing data with
    | nil => exact h
    | cons captured captures ih =>
      exact ih _ (storeResults_drawable h captured.addr captured.dataLen captured.frame)
  exact hrun _ (initData_drawable c)

/-- A frame from the bus to the series: what `debug` prints while its ticker fits the column is
parsed, and every column of the address gets the number of its bytes. -/
theorem storeResults_printed {usTicker : UInt32} {bus : UInt8} {id : UInt32} {frame : List UInt8}
    (hbus : bus = 1 ∨ bus = 2) (hid : id.toNat < 2 ^ 11)
    (hframe : 1 ≤ frame.length ∧ frame.length ≤ 8) (hfits : FitsColumn usTicker)
    {data : List Char → Option (List Column)} {columns : List Column}
    (hcolumns : data (digits 16 3 id.toNat) = some columns)
    (hbegins : ∀ column ∈ columns, column.beginsIn (frame.map HexByte.ofByte) = true) :
    ∃ text, canPrintWorkAround bus id frame (UInt8.ofNat frame.length) = some text ∧
      (storeResults data (canDbgParse (debugLine usTicker text))).2 = some true ∧
      (storeResults data (canDbgParse (debugLine usTicker text))).1 (digits 16 3 id.toNat) =
        some (columns.map fun column =>
          column.append (column.reading (frame.map HexByte.ofByte))) := by
  obtain ⟨busDigit,hprint⟩ := canPrintWorkAround_eq hbus hid hframe
  have hcolumn := ticker_length usTicker
  rw [if_pos hfits] at hcolumn
  have hparsed := @canDbgParse_of_ten _ busDigit id _ hcolumn (List.length_pos_iff.mp hframe.1)
  have htext : frame.map upperByte = (frame.map HexByte.ofByte).map HexByte.text := by
    rw [List.map_map]
    exact List.map_congr_left fun byte _ => (HexByte.text_ofByte byte).symm
  refine ⟨_,hprint,?_,?_⟩
  · rw [debugLine,hparsed,expected,htext,storeResults_done_iff]
    exact ⟨columns,hcolumns,hbegins⟩
  · rw [debugLine,hparsed,expected,htext,storeResults_self hcolumns,
      List.takeWhile_eq_self_iff.mpr hbegins,List.dropWhile_eq_nil_iff.mpr hbegins,
      List.append_nil]

end Pyrn.Console
