import Pyrn.Console.CanPrint
import Pyrn.Framework.PackedStruct
import Mathlib.Data.List.DropRight

/-!
# Parsing printed CAN frames

`canDbgParse` cuts a line at fixed columns. It reads back what `debug` has printed as long as the
ticker fills its column and no more.
-/

namespace Pyrn.Console

open Printf PackedStruct

/-- What `strip` takes away at both ends. -/
def isSpace (c : Char) : Bool :=
  c = ' ' || c = '\t' || c = '\n' || c = '\r' || c = '\x0b' || c = '\x0c'

def strip (text : List Char) : List Char := (text.dropWhile isSpace).rdropWhile isSpace

/-- The list that the parser returns. -/
structure Parsed where
  addr : List Char
  dataLen : List Char
  data : List (List Char)
  deriving DecidableEq, Repr

def canDbgParse (line : List Char) : Parsed where
  addr := slice line 13 16
  dataLen := slice line 17 18
  data := (strip (line.drop 19)).splitOn ' '

/-- A byte in two upper-case digits. -/
def upperByte (byte : UInt8) : List Char := (digits 16 2 byte.toNat).map Char.toUpper

/-- The identifier in three lower-case digits, the length in one, and the bytes. -/
def expected (id : UInt32) (data : List UInt8) : Parsed where
  addr := digits 16 3 id.toNat
  dataLen := digits 10 1 data.length
  data := data.map upperByte

/-- The two characters of a byte, neither of which is cut off or taken for a separator. -/
theorem upperHex_byte (byte : UInt8) : upperHex 2 byte.toNat = upperByte byte :=
  upperHex_eq (by decide) byte.toNat_lt

theorem isSpace_upper : ∀ d < 16, isSpace (Nat.digitChar d).toUpper = false := by
  decide

theorem upperByte_eq (byte : UInt8) : ∃ high low, upperByte byte = [high,low] ∧
    isSpace high = false ∧ isSpace low = false :=
  ⟨_,_,rfl,isSpace_upper _ (Nat.mod_lt _ (by decide)),isSpace_upper _ (Nat.mod_lt _ (by decide))⟩

theorem printedBytes_eq (data : List UInt8) :
    printedBytes data = [' '].intercalate (data.map upperByte) := by
  rw [printedBytes]
  congr 1
  apply List.map_congr_left
  intro byte _
  exact upperHex_byte byte

/-- Printed bytes begin and end with a digit. -/
theorem printedBytes_head {data : List UInt8} (hdata : data ≠ []) :
    ∃ first rest, printedBytes data = first :: rest ∧ isSpace first = false := by
  rw [printedBytes_eq]
  rcases data with _ | ⟨byte,rest⟩
  · exact absurd rfl hdata
  · obtain ⟨high,low,hbyte,hhigh,-⟩ := upperByte_eq byte
    cases rest with
    | nil => exact ⟨high,[low],by simp [hbyte],hhigh⟩
    | cons next rest =>
      refine ⟨high,low :: ([' '] ++ [' '].intercalate ((next :: rest).map upperByte)),?_,hhigh⟩
      rw [List.map_cons,List.map_cons,List.intercalate_cons_cons,hbyte]
      rfl

theorem printedBytes_last {data : List UInt8} (hdata : data ≠ []) :
    ∃ front last, printedBytes data = front ++ [last] ∧ isSpace last = false := by
  rw [printedBytes_eq]
  induction data with
  | nil => exact absurd rfl hdata
  | cons byte rest ih =>
    obtain ⟨high,low,hbyte,-,hlow⟩ := upperByte_eq byte
    cases rest with
    | nil => exact ⟨[high],low,by simp [hbyte],hlow⟩
    | cons next rest =>
      obtain ⟨front,last,hrest,hlast⟩ := ih (List.cons_ne_nil _ _)
      refine ⟨upperByte byte ++ [' '] ++ front,last,?_,hlast⟩
      rw [List.map_cons,List.map_cons,List.intercalate_cons_cons,← List.map_cons,hrest]
      simp only [List.append_assoc]

/-- The end of the line is taken away, and nothing else. -/
theorem strip_printedBytes {data : List UInt8} (hdata : data ≠ []) :
    strip (printedBytes data ++ ['\n']) = printedBytes data := by
  obtain ⟨first,rest,hhead,hfirst⟩ := printedBytes_head hdata
  obtain ⟨front,last,htail,hlast⟩ := printedBytes_last hdata
  have hnone : (printedBytes data ++ ['\n']).dropWhile isSpace = printedBytes data ++ ['\n'] := by
    rw [hhead,List.cons_append,List.dropWhile_cons_of_neg (by simp [hfirst])]
  rw [strip,hnone,List.rdropWhile_concat_pos _ _ _ (by rfl),htail,
    List.rdropWhile_concat_neg _ _ _ (by simp [hlast])]

theorem splitOn_printedBytes {data : List UInt8} (hdata : data ≠ []) :
    (printedBytes data).splitOn ' ' = data.map upperByte := by
  rw [printedBytes_eq]
  apply List.splitOn_intercalate
  · intro token htoken hspace
    obtain ⟨byte,-,rfl⟩ := List.mem_map.mp htoken
    obtain ⟨high,low,hbyte,hhigh,hlow⟩ := upperByte_eq byte
    rw [hbyte,List.mem_cons,List.mem_singleton] at hspace
    rcases hspace with hspace | hspace
    · rw [← hspace] at hhigh
      exact absurd hhigh (by decide)
    · rw [← hspace] at hlow
      exact absurd hlow (by decide)
  · exact fun hnil => hdata (List.map_eq_nil_iff.mp hnil)

/-- The text behind the ticker and its blank, up to the bytes. -/
theorem canPrintWorkAround_eq {bus : UInt8} {id : UInt32} {data : List UInt8}
    (hbus : bus = 1 ∨ bus = 2) (hid : id.toNat < 2 ^ 11)
    (hdata : 1 ≤ data.length ∧ data.length ≤ 8) :
    ∃ busDigit, canPrintWorkAround bus id data (UInt8.ofNat data.length) =
      some ([busDigit,'|'] ++ digits 16 3 id.toNat ++ ['|'] ++ digits 10 1 data.length ++ ['|'] ++
        printedBytes data) := by
  have hlen : (UInt8.ofNat data.length).toNat = data.length := by
    rw [UInt8.toNat_ofNat']
    omega
  have hdecimal : decimal data.length = digits 10 1 data.length := by
    have hnat : (0 : Int) ≤ data.length := Int.natCast_nonneg _
    have hfits : data.length < 10 ^ 1 := by omega
    rw [decimal,if_pos hnat,Int.toNat_natCast,← pad_toDigits (by decide) (by decide) hfits,
      pad_of_le Nat.length_toDigits_pos]
  have hhex : hex 3 id.toNat = digits 16 3 id.toNat := hex_eq (by decide) (by omega)
  rw [canPrintWorkAround,hlen,if_pos hdata,List.take_length,hdecimal,hhex]
  rcases hbus with rfl | rfl
  · exact ⟨'1',rfl⟩
  · exact ⟨'2',rfl⟩

theorem digitChar_ne_bar : ∀ d < 16, Nat.digitChar d ≠ '|' := by
  decide

/-- Behind a ticker of ten columns the parser finds every field. -/
theorem canDbgParse_of_ten {column : List Char} {busDigit : Char} {id : UInt32}
    {data : List UInt8} (hcolumn : column.length = 10) (hdata : data ≠ []) :
    canDbgParse (column ++ [' '] ++ ([busDigit,'|'] ++ digits 16 3 id.toNat ++ ['|'] ++
      digits 10 1 data.length ++ ['|'] ++ printedBytes data) ++ ['\n']) = expected id data := by
  have haddr : slice (column ++ [' '] ++ ([busDigit,'|'] ++ digits 16 3 id.toNat ++ ['|'] ++
      digits 10 1 data.length ++ ['|'] ++ printedBytes data) ++ ['\n']) 13 16 =
      digits 16 3 id.toNat := by
    have hmiddle : slice (column ++ [' ',busDigit,'|'] ++ digits 16 3 id.toNat ++
        (['|'] ++ digits 10 1 data.length ++ ['|'] ++ printedBytes data ++ ['\n'])) 13 16 =
        digits 16 3 id.toNat := by
      apply slice_middle <;> simp [hcolumn]
    simpa only [List.append_assoc,List.cons_append,List.nil_append] using hmiddle
  have hlen : slice (column ++ [' '] ++ ([busDigit,'|'] ++ digits 16 3 id.toNat ++ ['|'] ++
      digits 10 1 data.length ++ ['|'] ++ printedBytes data) ++ ['\n']) 17 18 =
      digits 10 1 data.length := by
    have hmiddle : slice (column ++ [' ',busDigit,'|'] ++ digits 16 3 id.toNat ++ ['|'] ++
        digits 10 1 data.length ++ (['|'] ++ printedBytes data ++ ['\n'])) 17 18 =
        digits 10 1 data.length := by
      apply slice_middle <;> simp [hcolumn]
    simpa only [List.append_assoc,List.cons_append,List.nil_append] using hmiddle
  have hrest : (column ++ [' '] ++ ([busDigit,'|'] ++ digits 16 3 id.toNat ++ ['|'] ++
      digits 10 1 data.length ++ ['|'] ++ printedBytes data) ++ ['\n']).drop 19 =
      printedBytes data ++ ['\n'] := by
    have hfront : (column ++ [' ',busDigit,'|'] ++ digits 16 3 id.toNat ++ ['|'] ++
        digits 10 1 data.length ++ ['|']).length = 19 := by simp [hcolumn]
    have hdrop : (column ++ [' ',busDigit,'|'] ++ digits 16 3 id.toNat ++ ['|'] ++
        digits 10 1 data.length ++ ['|'] ++ (printedBytes data ++ ['\n'])).drop 19 =
        printedBytes data ++ ['\n'] := List.drop_left' hfront
    simpa only [List.append_assoc,List.cons_append,List.nil_append] using hdrop
  rw [canDbgParse,haddr,hlen,hrest,strip_printedBytes hdata,splitOn_printedBytes hdata]
  rfl

/-- Behind a ticker of eleven columns it finds the separator in front of the identifier. -/
theorem canDbgParse_of_eleven {column : List Char} {busDigit : Char} {id : UInt32}
    {data : List UInt8} (hcolumn : column.length = 11) :
    canDbgParse (column ++ [' '] ++ ([busDigit,'|'] ++ digits 16 3 id.toNat ++ ['|'] ++
      digits 10 1 data.length ++ ['|'] ++ printedBytes data) ++ ['\n']) ≠ expected id data := by
  intro hparsed
  have haddr := congrArg Parsed.addr hparsed
  obtain ⟨x,y,z,hid,hx⟩ : ∃ x y z, digits 16 3 id.toNat = [x,y,z] ∧ x ≠ '|' :=
    ⟨_,_,_,rfl,digitChar_ne_bar _ (Nat.mod_lt _ (by decide))⟩
  have hmiddle : slice (column ++ [' ',busDigit] ++ ['|',x,y] ++
      ([z] ++ ['|'] ++ digits 10 1 data.length ++ ['|'] ++ printedBytes data ++ ['\n'])) 13 16 =
      ['|',x,y] := by
    apply slice_middle <;> simp [hcolumn]
  rw [canDbgParse,expected] at haddr
  simp only [hid,List.append_assoc,List.cons_append,List.nil_append] at haddr hmiddle
  rw [hmiddle] at haddr
  exact hx (List.cons.inj haddr).1.symm

/-- For every frame of the two buses the parser reads back the printed line exactly when the
ticker, printed as a signed number, fits its column. -/
theorem canDbgParse_exact (usTicker : UInt32) (bus : UInt8) (id : UInt32) (data : List UInt8)
    (hbus : bus = 1 ∨ bus = 2) (hid : id.toNat < 2 ^ 11)
    (hdata : 1 ≤ data.length ∧ data.length ≤ 8) :
    (canPrintWorkAround bus id data (UInt8.ofNat data.length)).map (fun text =>
        canDbgParse (debugLine usTicker text)) = some (expected id data) ↔
      FitsColumn usTicker := by
  obtain ⟨busDigit,hprint⟩ := canPrintWorkAround_eq hbus hid hdata
  have hsome : data ≠ [] := List.length_pos_iff.mp hdata.1
  have hcolumn := ticker_length usTicker
  rw [hprint,Option.map_some,Option.some_inj,debugLine]
  by_cases hfits : FitsColumn usTicker
  · rw [if_pos hfits] at hcolumn
    exact iff_of_true (canDbgParse_of_ten hcolumn hsome) hfits
  · rw [if_neg hfits] at hcolumn
    exact iff_of_false (canDbgParse_of_eleven hcolumn) hfits

theorem canDbgParse_exact_example :
    (canPrintWorkAround 2 0x3CD [0xFF,0xFB,0,0x22] 4).map (fun text =>
        canDbgParse (debugLine 31653870 text)) =
      some ⟨['3','c','d'],['4'],[['F','F'],['F','B'],['0','0'],['2','2']]⟩ :=
  (canDbgParse_exact 31653870 2 0x3CD [0xFF,0xFB,0,0x22] (.inr rfl) (by decide) (by decide)).mpr
    (by decide)

/-- From half of its range on the ticker is printed as a large negative number. -/
theorem canDbgParse_negative :
    let parsed := (canPrintWorkAround 2 0x3CD [0xFF] 1).map fun text =>
      canDbgParse (debugLine 0x80000000 text)
    parsed = some ⟨['|','3','c'],['|'],[['|','F','F']]⟩ ∧
      parsed ≠ some (expected 0x3CD [0xFF]) := by
  decide

end Pyrn.Console
