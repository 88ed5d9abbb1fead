import Mathlib.Data.List.Basic
import Mathlib.Data.List.TakeDrop

/-!
# Checked block copies

A memory object is the list of its cells. Block copies take C-style signed offsets and
counts; a copy that leaves the object, or whose count is negative, is `none`.
-/

namespace Buffer

variable {α : Type*}

/-- Overwrite the cells from `off` on by `xs`. -/
def splice (cells : List α) (off : Nat) (xs : List α) : List α :=
  cells.take off ++ xs ++ cells.drop (off + xs.length)

/-- Copy `count` cells out of an object. -/
def load (cells : List α) (off count : Int) : Option (List α) :=
  if 0 ≤ off ∧ 0 ≤ count ∧ off + count ≤ cells.length then
    some ((cells.drop off.toNat).take count.toNat)
  else none

/-- Copy `xs` into an object. -/
def store (cells : List α) (off : Int) (xs : List α) : Option (List α) :=
  if 0 ≤ off ∧ off + xs.length ≤ cells.length then some (splice cells off.toNat xs) else none

theorem splice_length {cells xs : List α} {off : Nat} (h : off + xs.length ≤ cells.length) :
    (splice cells off xs).length = cells.length := by
  simp only [splice,List.length_append,List.length_take,List.length_drop]
  omega

@[simp] theorem splice_nil (cells : List α) (off : Nat) : splice cells off [] = cells := by
  simp [splice]

theorem load_eq_some_iff {cells ys : List α} {off count : Int} :
    load cells off count = some ys ↔
      (0 ≤ off ∧ 0 ≤ count ∧ off + count ≤ cells.length) ∧
        (cells.drop off.toNat).take count.toNat = ys := by
  simp [load]

theorem store_eq_some_iff {cells ys xs : List α} {off : Int} :
    store cells off xs = some ys ↔
      (0 ≤ off ∧ off + xs.length ≤ cells.length) ∧ splice cells off.toNat xs = ys := by
  simp [store]

theorem length_of_load {cells ys : List α} {off count : Int} (h : load cells off count = some ys) :
    (ys.length : Int) = count := by
  obtain ⟨hbounds,rfl⟩ := load_eq_some_iff.mp h
  rw [List.length_take,List.length_drop]
  omega

/-- A write past the end of an object. -/
theorem store_eq_none {cells xs : List α} {off : Int} (h : cells.length < off + xs.length) :
    store cells off xs = none := if_neg (by omega)

/-- A read at an offset and a count that are known as natural numbers. -/
theorem load_cast {cells : List α} {off count : Int} (o c : Nat) (ho : off = o) (hc : count = c)
    (h : o + c ≤ cells.length) : load cells off count = some ((cells.drop o).take c) := by
  subst ho hc
  rw [load_eq_some_iff]
  exact ⟨by omega,by simp⟩

theorem load_of_le {cells : List α} {off count : Nat} (h : off + count ≤ cells.length) :
    load cells off count = some ((cells.drop off).take count) := load_cast off count rfl rfl h

theorem load_zero_of_le {cells : List α} {count : Nat} (h : count ≤ cells.length) :
    load cells 0 count = some (cells.take count) := by
  have hload : load cells (0 : Nat) count = some ((cells.drop 0).take count) :=
    load_of_le (by omega)
  simpa using hload

/-- A write at an offset that is known as a natural number. -/
theorem store_cast {cells xs : List α} {off : Int} (o : Nat) (ho : off = o)
    (h : o + xs.length ≤ cells.length) : store cells off xs = some (splice cells o xs) := by
  subst ho
  rw [store_eq_some_iff]
  exact ⟨by omega,by simp⟩

theorem store_of_le {cells xs : List α} {off : Nat} (h : off + xs.length ≤ cells.length) :
    store cells off xs = some (splice cells off xs) := store_cast off rfl h

/-- A write inside an object succeeds and keeps the size of the object. -/
theorem exists_store (cells xs : List α) (off : Nat) (h : off + xs.length ≤ cells.length) :
    ∃ stored,store cells off xs = some stored ∧ stored.length = cells.length :=
  ⟨_,store_of_le h,splice_length h⟩

/-- What a write that succeeds says about the object. -/
theorem bounds_of_store {cells xs stored : List α} {off : Nat}
    (h : store cells off xs = some stored) :
    off + xs.length ≤ cells.length ∧ stored.length = cells.length := by
  obtain ⟨hfits,rfl⟩ := store_eq_some_iff.mp h
  have hin : off + xs.length ≤ cells.length := by omega
  exact ⟨hin,splice_length hin⟩

theorem store_zero_of_le {cells xs : List α} (h : xs.length ≤ cells.length) :
    store cells 0 xs = some (xs ++ cells.drop xs.length) := by
  have hstore : store cells (0 : Nat) xs = some (splice cells 0 xs) := store_of_le (by omega)
  simpa [splice] using hstore

/-- Filling an object from its start in two copies. -/
theorem store_behind {cells xs ys : List α} (h : (xs ++ ys).length ≤ cells.length) :
    store (xs ++ cells.drop xs.length) xs.length ys =
      some (xs ++ ys ++ cells.drop (xs ++ ys).length) := by
  rw [List.length_append] at h
  rw [store_of_le (by simp only [List.length_append,List.length_drop]; omega),splice,
    List.take_left,List.drop_append,List.drop_eq_nil_of_le (by omega),List.drop_drop,
    List.length_append]
  simp only [List.nil_append]
  congr 3
  omega

theorem take_splice {cells xs : List α} {off n : Nat} (hn : n ≤ off)
    (h : off + xs.length ≤ cells.length) : (splice cells off xs).take n = cells.take n := by
  rw [splice,List.append_assoc,List.take_append_of_le_length (by simp; omega),List.take_take,
    Nat.min_eq_left hn]

/-- What lies up to the end of a copy: what was there before it, and the copy. -/
theorem take_splice_add {cells xs : List α} {off n : Nat} (hn : xs.length = n)
    (h : off + n ≤ cells.length) :
    (splice cells off xs).take (off + n) = cells.take off ++ xs := by
  rw [splice]
  apply List.take_left'
  rw [List.length_append,List.length_take,hn]
  omega

theorem take_drop_splice {cells xs : List α} {off : Nat}
    (h : off + xs.length ≤ cells.length) :
    ((splice cells off xs).drop off).take xs.length = xs := by
  have htake : (cells.take off).length = off := by simp; omega
  rw [splice,List.append_assoc,List.drop_append_of_le_length (by omega),
    List.drop_eq_nil_of_le (by omega)]
  simp

theorem drop_splice_self {cells xs : List α} {off : Nat} (h : off ≤ cells.length) :
    (splice cells off xs).drop off = xs ++ cells.drop (off + xs.length) := by
  rw [splice,List.append_assoc]
  exact List.drop_left' (by rw [List.length_take]; omega)

/-- A copy does not reach what lies behind it. -/
theorem drop_splice {cells xs : List α} {off base : Nat} (h : off + xs.length ≤ cells.length)
    (hbase : off + xs.length ≤ base) : (splice cells off xs).drop base = cells.drop base := by
  have hfront : (cells.take off ++ xs).length = off + xs.length := by
    rw [List.length_append,List.length_take]
    omega
  rw [splice,List.drop_append,hfront,List.drop_eq_nil_of_le (le_of_eq_of_le hfront hbase),
    List.nil_append,List.drop_drop,Nat.add_sub_cancel' hbase]

/-- A copy right behind a known part of the object extends that part. -/
theorem prefix_splice {cells known xs : List α} {base off : Nat}
    (hknown : known <+: cells.drop base) (hoff : off = base + known.length)
    (h : off + xs.length ≤ cells.length) :
    known ++ xs <+: (splice cells off xs).drop base := by
  obtain ⟨rest,hrest⟩ := hknown
  have hfront : (cells.take off).drop base = known := by
    rw [List.drop_take,← hrest,hoff,Nat.add_sub_cancel_left,List.take_left]
  have htake : (cells.take off).length = off := by
    rw [List.length_take]
    omega
  refine ⟨cells.drop (off + xs.length),?_⟩
  rw [splice,List.append_assoc,List.append_assoc,List.drop_append_of_le_length (by omega),hfront]

theorem getElem?_splice (cells xs : List α) (off i : Nat)
    (h : off + xs.length ≤ cells.length) :
    (splice cells off xs)[i]? =
      if i < off then cells[i]? else if i < off + xs.length then xs[i - off]? else cells[i]? := by
  have htake : (cells.take off).length = off := by simp; omega
  rw [splice,List.append_assoc]
  by_cases hlow : i < off
  · rw [if_pos hlow,List.getElem?_append_left (by omega),List.getElem?_take_of_lt hlow]
  rw [if_neg hlow,List.getElem?_append_right (by omega),htake]
  by_cases hmid : i < off + xs.length
  · rw [if_pos hmid,List.getElem?_append_left (by omega)]
  · rw [if_neg hmid,List.getElem?_append_right (by omega),List.getElem?_drop]
    congr 1
    omega

end Buffer
