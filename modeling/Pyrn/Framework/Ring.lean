import Mathlib.Data.List.Rotate
import Pyrn.Framework.Buffer

/-!
# Circular buffers

A circular buffer is read from a cursor on by rotating its cells, so that the occupied
window is a prefix of the rotated list. A straight block copy at a physical position is a
block copy at the corresponding logical offset of the rotated list.
-/

namespace Ring

variable {α : Type*}

/-- The first `count` cells met when walking from `start` on. -/
def window (cells : List α) (start count : Nat) : List α := (cells.rotate start).take count

theorem window_length {cells : List α} {start count : Nat} (h : count ≤ cells.length) :
    (window cells start count).length = count := by
  simp [window,h]

@[simp] theorem window_zero (cells : List α) (start : Nat) : window cells start 0 = [] := rfl

theorem window_mod (cells : List α) (start count : Nat) :
    window cells (start % cells.length) count = window cells start count := by
  rw [window,List.rotate_mod,window]

/-- A window splits at any inner offset; the second part starts there. -/
theorem window_add {cells : List α} {start m n : Nat} (h : m + n ≤ cells.length) :
    window cells start (m + n) = window cells start m ++ window cells (start + m) n := by
  have hrot : (cells.rotate (start + m)).take n = ((cells.rotate start).drop m).take n := by
    rw [← List.rotate_rotate,List.rotate_eq_drop_append_take (by simp; omega),
      List.take_append_of_le_length (by simp; omega)]
  rw [window,window,window,hrot,List.take_add]

theorem mod_add_eq_ite {size position : Nat} (h : position < 2 * size) :
    position % size = if position < size then position else position - size := by
  split
  · rename_i hlt
    exact Nat.mod_eq_of_lt hlt
  · rw [Nat.mod_eq_sub_mod (by omega),Nat.mod_eq_of_lt (by omega)]

/-- A straight copy of `xs` at the physical position of logical offset `k` is a straight copy
at `k` of the rotated cells. -/
theorem rotate_splice {cells xs : List α} {start k position : Nat}
    (hstart : start < cells.length) (hk : k + xs.length ≤ cells.length)
    (hposition : position % cells.length = (start + k) % cells.length)
    (hfit : position + xs.length ≤ cells.length) :
    (Buffer.splice cells position xs).rotate start = Buffer.splice (cells.rotate start) k xs := by
  rcases List.eq_nil_or_concat xs with rfl | ⟨init,last,rfl⟩
  · simp
  simp only [List.concat_eq_append,List.length_append,List.length_cons,List.length_nil] at *
  have hsplice : (Buffer.splice cells position (init ++ [last])).length = cells.length :=
    Buffer.splice_length (by simpa using hfit)
  apply List.ext_getElem?
  intro i
  by_cases hi : i < cells.length
  swap
  · rw [List.getElem?_eq_none (by simp only [List.length_rotate,hsplice]; omega),
      List.getElem?_eq_none (by
        rw [Buffer.splice_length (by simpa using hk),List.length_rotate]; omega)]
  rw [List.getElem?_rotate (by omega),hsplice,Buffer.getElem?_splice _ _ _ _ (by simpa using hfit),
    Buffer.getElem?_splice _ _ _ _ (by simpa using hk),List.getElem?_rotate hi]
  rw [Nat.mod_eq_of_lt (by omega),mod_add_eq_ite (by omega)] at hposition
  rw [mod_add_eq_ite (by omega)]
  simp only [List.length_append,List.length_cons,List.length_nil]
  split_ifs at * <;> first | rfl | omega | (congr 1; omega)

/-- A straight read at the physical position of logical offset `k`. -/
theorem take_drop_rotate {cells : List α} {start position : Nat} (k n : Nat)
    (hstart : start < cells.length) (hk : k + n ≤ cells.length)
    (hposition : position % cells.length = (start + k) % cells.length)
    (hfit : position + n ≤ cells.length) :
    ((cells.rotate start).drop k).take n = (cells.drop position).take n := by
  rcases Nat.eq_zero_or_pos n with rfl | hn
  · simp
  rw [Nat.mod_eq_of_lt (by omega),mod_add_eq_ite (by omega)] at hposition
  apply List.ext_getElem?
  intro i
  by_cases hi : i < n
  swap
  · rw [List.getElem?_eq_none (by simp; omega),List.getElem?_eq_none (by simp; omega)]
  rw [List.getElem?_take_of_lt hi,List.getElem?_take_of_lt hi,List.getElem?_drop,
    List.getElem?_drop,List.getElem?_rotate (by omega),mod_add_eq_ite (by omega)]
  congr 1
  split_ifs at * <;> omega

theorem window_eq_take_drop {cells : List α} {start n : Nat} (hfit : start + n ≤ cells.length) :
    window cells start n = (cells.drop start).take n := by
  rcases Nat.eq_zero_or_pos n with rfl | hn
  · simp
  have hread : ((cells.rotate start).drop 0).take n = (cells.drop start).take n :=
    take_drop_rotate 0 n (by omega) (by omega) (by simp) hfit
  simpa [window] using hread

/-- A read that reaches the end of the cells continues at their beginning. -/
theorem window_eq_wrapped {cells : List α} {start n : Nat} (hstart : start ≤ cells.length)
    (hn : n ≤ cells.length) (hwrap : cells.length ≤ start + n) :
    window cells start n = cells.drop start ++ cells.take (start + n - cells.length) := by
  have hsplit : n = (cells.length - start) + (start + n - cells.length) := by omega
  conv_lhs => rw [hsplit]
  rw [window_add (by omega),window_eq_take_drop (by omega),
    List.take_of_length_le (by simp),Nat.add_sub_cancel' hstart]
  congr 1
  rw [← window_mod,Nat.mod_self,window_eq_take_drop (by omega),List.drop_zero]

/-- Copying `xs` behind the window extends it by `xs`. -/
theorem store_window (cells xs : List α) (start n position : Nat)
    (hstart : start < cells.length) (hn : n + xs.length ≤ cells.length)
    (hposition : position % cells.length = (start + n) % cells.length)
    (hfit : position + xs.length ≤ cells.length) :
    ∃ cells', Buffer.store cells position xs = some cells' ∧ cells'.length = cells.length ∧
      window cells' start (n + xs.length) = window cells start n ++ xs := by
  refine ⟨_,Buffer.store_of_le hfit,Buffer.splice_length hfit,?_⟩
  have hlogical : n + xs.length ≤ (cells.rotate start).length := by simpa using hn
  rw [window,rotate_splice hstart hn hposition hfit,List.take_add,
    Buffer.take_splice (le_refl n) hlogical,Buffer.take_drop_splice hlogical,window]

theorem advance_mod {size start n m position : Nat} (h : position % size = (start + n) % size) :
    (position + m) % size = (start + (n + m)) % size := by
  rw [← Nat.add_assoc,Nat.add_mod position m,h,← Nat.add_mod]

/-- Copying `xs` behind the window in two parts, up to the end of the cells and from their
beginning on. -/
theorem store_window_split (cells xs : List α) (start n position : Nat)
    (hstart : start < cells.length) (hn : n + xs.length ≤ cells.length)
    (hposition : position % cells.length = (start + n) % cells.length)
    (hle : position ≤ cells.length) (hwrap : cells.length ≤ position + xs.length) :
    ∃ cells₁ cells',
      Buffer.store cells position (xs.take (cells.length - position)) = some cells₁ ∧
      Buffer.store cells₁ 0 (xs.drop (cells.length - position)) = some cells' ∧
      cells'.length = cells.length ∧
      window cells' start (n + xs.length) = window cells start n ++ xs := by
  have htake : (xs.take (cells.length - position)).length = cells.length - position := by
    rw [List.length_take]; omega
  obtain ⟨cells₁,hstore₁,hlen₁,hwin₁⟩ := store_window cells (xs.take (cells.length - position))
    start n position hstart (by omega) hposition (by omega)
  rw [htake] at hwin₁
  have hzero : 0 % cells₁.length = (start + (n + (cells.length - position))) % cells₁.length := by
    rw [hlen₁,← advance_mod hposition,Nat.add_sub_cancel' hle,Nat.mod_self,Nat.zero_mod]
  obtain ⟨cells',hstore₂,hlen₂,hwin₂⟩ := store_window cells₁ (xs.drop (cells.length - position))
    start (n + (cells.length - position)) 0 (by omega) (by rw [List.length_drop]; omega) hzero
    (by rw [List.length_drop]; omega)
  refine ⟨cells₁,cells',hstore₁,by simpa using hstore₂,hlen₂.trans hlen₁,?_⟩
  have hcount : n + (cells.length - position) + (xs.drop (cells.length - position)).length =
      n + xs.length := by rw [List.length_drop]; omega
  rw [hcount,hwin₁,List.append_assoc,List.take_append_drop] at hwin₂
  exact hwin₂

/-- The cell behind the window is the next one of it. -/
theorem set_window (cells : List α) (x : α) {start n : Nat} (hstart : start < cells.length)
    (hn : n < cells.length) :
    window (cells.set ((start + n) % cells.length) x) start (n + 1) =
      window cells start n ++ [x] := by
  have hposition : (start + n) % cells.length < cells.length := Nat.mod_lt _ (by omega)
  obtain ⟨cells',hstore,-,hwindow⟩ := store_window cells [x] start n ((start + n) % cells.length)
    hstart hn (Nat.mod_mod _ _) hposition
  have hset : Buffer.splice cells ((start + n) % cells.length) [x] =
      cells.set ((start + n) % cells.length) x := by
    rw [List.set_eq_take_append_cons_drop,if_pos hposition]
    simp [Buffer.splice]
  rw [Buffer.store_of_le (show _ + [x].length ≤ _ from hposition),hset] at hstore
  rw [Option.some.inj hstore]
  exact hwindow

theorem window_cons {cells : List α} {start n : Nat} (hstart : start < cells.length)
    (hn : n < cells.length) :
    window cells start (n + 1) = cells[start] :: window cells (start + 1) n := by
  rw [Nat.add_comm n 1,window_add (by omega),window_eq_take_drop hstart,
    List.take_one_drop_eq_of_lt_length hstart]
  rfl

end Ring
