import Pyrn.Framework.Buffer

/-!
# Strings in a memory object

A string lies at the beginning of an object and ends in front of the first terminator. The search
in a string is checked: it is `none` where it runs out of the object.
-/

namespace CString

variable {α : Type*} {nul c : α} {cells text front rest : List α}

section Search

variable [DecidableEq α]

/-- The first `c` in front of the terminator, if there is one. -/
def strchr (nul c : α) : List α → Option (Option Nat)
  | [] => none
  | x :: cells =>
      if x = c then some (some 0)
      else if x = nul then some none
      else (strchr nul c cells).map fun found => found.map (· + 1)

/-- The position of the first `c` of a text, up to the first terminator in it. -/
def find (nul c : α) : List α → Option Nat
  | [] => none
  | x :: text =>
      if x = c then some 0
      else if x = nul then none
      else (find nul c text).map (· + 1)

/-- The search in an object that begins with a terminated text finds what the text has. -/
theorem strchr_of_prefix (hc : c ≠ nul) (h : text ++ [nul] <+: cells) :
    strchr nul c cells = some (find nul c text) := by
  obtain ⟨rest,rfl⟩ := h
  induction text with
  | nil =>
    rw [List.nil_append,List.singleton_append,strchr,if_neg hc.symm,if_pos rfl]
    rfl
  | cons x text ih =>
    rw [List.cons_append,List.cons_append,strchr,find]
    split
    · rfl
    split
    · rfl
    · rw [ih]
      rfl

theorem find_eq_some_iff {i : Nat} :
    find nul c text = some i ↔ ∃ front rest, text = front ++ c :: rest ∧ front.length = i ∧
      c ∉ front ∧ nul ∉ front := by
  induction text generalizing i with
  | nil => simp [find]
  | cons x text ih =>
    rw [find]
    split
    · rename_i hx
      constructor
      · intro hi
        exact ⟨[],text,by rw [hx]; rfl,Option.some.inj hi,List.not_mem_nil,List.not_mem_nil⟩
      · rintro ⟨front,rest,htext,rfl,hfront,-⟩
        cases front with
        | nil => rfl
        | cons y front =>
          obtain ⟨rfl,-⟩ := List.cons.inj htext
          exact absurd (hx ▸ List.mem_cons_self) hfront
    rename_i hx
    split
    · rename_i hnul
      refine iff_of_false (fun hi => nomatch hi) ?_
      rintro ⟨front,rest,htext,-,-,hfront⟩
      cases front with
      | nil => exact hx (List.cons.inj htext).1
      | cons y front =>
        obtain ⟨rfl,-⟩ := List.cons.inj htext
        exact hfront (hnul ▸ List.mem_cons_self)
    rename_i hnul
    constructor
    · intro hi
      obtain ⟨j,hj,rfl⟩ := Option.map_eq_some_iff.mp hi
      obtain ⟨front,rest,rfl,rfl,hfront,hnot⟩ := ih.mp hj
      refine ⟨x :: front,rest,rfl,rfl,?_,?_⟩
      · exact List.not_mem_cons_of_ne_of_not_mem (Ne.symm hx) hfront
      · exact List.not_mem_cons_of_ne_of_not_mem (Ne.symm hnul) hnot
    · rintro ⟨front,rest,htext,rfl,hfront,hnot⟩
      cases front with
      | nil => exact absurd (List.cons.inj htext).1 hx
      | cons y front =>
        obtain ⟨rfl,htail⟩ := List.cons.inj htext
        have hfound := ih.mpr ⟨front,rest,htail,rfl,fun h => hfront (List.mem_cons_of_mem _ h),
          fun h => hnot (List.mem_cons_of_mem _ h)⟩
        rw [hfound]
        rfl

theorem find_append (hfront : c ∉ front) (hnul : nul ∉ front) :
    find nul c (front ++ c :: rest) = some front.length :=
  find_eq_some_iff.mpr ⟨front,rest,rfl,rfl,hfront,hnul⟩

theorem find_eq_none (hc : c ∉ text) : find nul c text = none := by
  induction text with
  | nil => rfl
  | cons x text ih =>
    rw [find,if_neg (Ne.symm (List.ne_of_not_mem_cons hc))]
    split
    · rfl
    · rw [ih (List.not_mem_of_not_mem_cons hc)]
      rfl

theorem find_lt {i : Nat} (h : find nul c text = some i) : i < text.length := by
  obtain ⟨front,rest,rfl,rfl,-⟩ := find_eq_some_iff.mp h
  rw [List.length_append,List.length_cons]
  omega

/-- The first cell alone says whether a text begins with `c`. -/
theorem find_eq_zero_iff : find nul c text = some 0 ↔ text.head? = some c := by
  rw [find_eq_some_iff]
  constructor
  · rintro ⟨front,rest,rfl,hlength,-⟩
    rw [List.length_eq_zero_iff.mp hlength]
    rfl
  · intro hhead
    obtain ⟨rest,rfl⟩ : ∃ rest, text = c :: rest := by
      cases text with
      | nil => cases hhead
      | cons x rest => exact ⟨rest,by rw [Option.some.inj hhead]⟩
    exact ⟨[],rest,rfl,rfl,List.not_mem_nil,List.not_mem_nil⟩

/-- The text that a program sees in an object. -/
def string (nul : α) (cells : List α) : List α := cells.takeWhile (· ≠ nul)

theorem string_of_prefix (h : text ++ [nul] <+: cells) (hnul : nul ∉ text) :
    string nul cells = text := by
  obtain ⟨rest,rfl⟩ := h
  have hall : ∀ x ∈ text, decide (x ≠ nul) = true := by
    intro x hx
    exact decide_eq_true fun heq => hnul (heq ▸ hx)
  rw [string,List.append_assoc,List.takeWhile_append_of_pos hall,List.singleton_append,
    List.takeWhile_cons_of_neg (by simp),List.append_nil]

end Search

/-- Move `count` cells from `off` on to the beginning of the object. -/
def memmove (cells : List α) (off count : Int) : Option (List α) :=
  (Buffer.load cells off count).bind fun moved => Buffer.store cells 0 moved

/-- What lies in the object at the places of the text and of its terminator. -/
theorem getElem?_of_prefix {i : Nat} (h : text ++ [nul] <+: cells) (hi : i ≤ text.length) :
    cells[i]? = some (text.getD i nul) := by
  obtain ⟨rest,rfl⟩ := h
  rw [List.getElem?_append_left (by simp; omega)]
  rcases Nat.lt_or_eq_of_le hi with hlt | rfl
  · rw [List.getElem?_append_left hlt,List.getD_eq_getElem?_getD,List.getElem?_eq_getElem hlt]
    rfl
  · simp

/-- What lies behind the first `n` cells of a terminated text. -/
theorem drop_prefix {n : Nat} (h : text ++ [nul] <+: cells) (hn : n ≤ text.length) :
    text.drop n ++ [nul] <+: cells.drop n := by
  obtain ⟨rest,rfl⟩ := h
  rw [List.append_assoc,List.drop_append_of_le_length hn,← List.append_assoc]
  exact List.prefix_append _ _

/-- Moving a terminated text to the beginning of the object, with its terminator. -/
theorem memmove_of_prefix {n : Nat} {count : Int} (h : text ++ [nul] <+: cells.drop n)
    (hcount : count = text.length + 1) :
    ∃ moved, memmove cells n count = some moved ∧ moved.length = cells.length ∧
      text ++ [nul] <+: moved := by
  obtain ⟨rest,hrest⟩ := h
  have hlength : (text ++ [nul]).length = text.length + 1 := by simp
  have hinside : n + (text.length + 1) ≤ cells.length := by
    have hsum := congrArg List.length hrest
    rw [List.length_append,hlength,List.length_drop] at hsum
    omega
  have hload : Buffer.load cells n count = some (text ++ [nul]) := by
    rw [Buffer.load_cast n (text.length + 1) rfl hcount hinside,← hrest,← hlength,
      List.take_left]
  refine ⟨_,by rw [memmove,hload,Option.bind_some,Buffer.store_zero_of_le (by omega)],?_,
    List.prefix_append _ _⟩
  rw [List.length_append,List.length_drop]
  omega

/-- Writing behind a text, and a terminator behind that. -/
theorem append_of_prefix (nul : α) {data : List α} (h : text <+: cells)
    (hfits : text.length + data.length < cells.length) :
    ∃ filled ended, Buffer.store cells text.length data = some filled ∧
      Buffer.store filled (text.length + data.length : Nat) [nul] = some ended ∧
      ended.length = cells.length ∧ text ++ data ++ [nul] <+: ended := by
  obtain ⟨rest,rfl⟩ := h
  have hdata : text.length + data.length ≤ (text ++ rest).length := Nat.le_of_lt hfits
  have hlength := Buffer.splice_length hdata
  have hend : text.length + data.length + [nul].length ≤
      (Buffer.splice (text ++ rest) text.length data).length := by
    rw [hlength]
    exact hfits
  refine ⟨_,_,Buffer.store_of_le hdata,Buffer.store_of_le hend,?_,?_⟩
  · rw [Buffer.splice_length hend,hlength]
  · have htake : (Buffer.splice (text ++ rest) text.length data).take
        (text.length + data.length) = text ++ data := by
      rw [Buffer.take_splice_add rfl hdata,List.take_left]
    refine ⟨(Buffer.splice (text ++ rest) text.length data).drop
      (text.length + data.length + 1),?_⟩
    conv_rhs => rw [Buffer.splice,htake]
    simp

/-- A terminator put into a text cuts the text there. -/
theorem store_terminator {i : Nat} (h : text ++ [nul] <+: cells) (hi : i < text.length) :
    ∃ cut, Buffer.store cells i [nul] = some cut ∧ cut.length = cells.length ∧
      text.take i ++ [nul] <+: cut ∧ cut.drop (i + 1) = cells.drop (i + 1) := by
  obtain ⟨rest,rfl⟩ := h
  have hfits : i + [nul].length ≤ (text ++ [nul] ++ rest).length := by
    simp
    omega
  refine ⟨_,Buffer.store_of_le hfits,Buffer.splice_length hfits,?_,?_⟩
  · rw [Buffer.splice,List.append_assoc text,List.take_append_of_le_length (by omega)]
    exact List.prefix_append _ _
  · exact Buffer.drop_splice hfits (Nat.le_refl _)

end CString
