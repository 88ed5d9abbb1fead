import Mathlib.Tactic.SplitIfs
import Pyrn.Framework.BlockCopy

/-!
# Circular windows of a memory

`size` cells of a memory from `base` on are a ring. A window is the cells met from a cursor on,
with one wrap at the end of the ring.
-/

namespace MemoryRing

open BlockCopy

variable {α : Type*} {memory memory' : Int → α} {base size start p : Int} {xs ys : List α}

/-- The position that a position below twice the size stands for. -/
def wrap (size x : Int) : Int := if x < size then x else x - size

theorem wrap_of_lt {x : Int} (h : x < size) : wrap size x = x := if_pos h

theorem wrap_range (size x : Int) (h : 0 ≤ x ∧ x < 2 * size) :
    0 ≤ wrap size x ∧ wrap size x < size := by
  unfold wrap
  split <;> omega

/-- Moving on in two steps. -/
theorem wrap_wrap_add {x y : Int} (hy : 0 ≤ y) (h : x + y < 2 * size) :
    wrap size (wrap size x + y) = wrap size (x + y) := by
  unfold wrap
  split_ifs <;> omega

/-- The window from `start` on begins with the cells `xs`. -/
def Stored (memory : Int → α) (base size start : Int) (xs : List α) : Prop :=
  ∀ k : Nat, (h : k < xs.length) → memory (base + wrap size (start + k)) = xs[k]

theorem stored_nil (memory : Int → α) (base size start : Int) :
    Stored memory base size start [] := fun _ h => absurd h (Nat.not_lt_zero _)

/-- A block behind a window extends it; whatever else has been overwritten lies behind it. -/
theorem Stored.append {src : Int → α} {s fill : Int} {n : Nat}
    (h : Stored memory base size start xs) (hp : p = wrap size (start + xs.length))
    (hfill : 0 ≤ fill) (hroom : xs.length + n + fill ≤ size) (hfit : p + n + fill ≤ size)
    (hnew : ∀ x, p ≤ x → x < p + n → memory' (base + x) = src (s + (x - p)))
    (hkept : ∀ x, x < p ∨ p + n + fill ≤ x → memory' (base + x) = memory (base + x)) :
    Stored memory' base size start (xs ++ cells src s n) := by
  intro k hk
  rw [List.length_append,cells_length] at hk
  by_cases hold : k < xs.length
  · rw [List.getElem_append_left hold,← h k hold]
    apply hkept
    subst hp
    unfold wrap
    split_ifs <;> omega
  · rw [List.getElem_append_right (by omega),cells_getElem]
    have hposition : wrap size (start + k) = p + (k - xs.length : Nat) := by
      subst hp
      unfold wrap at hfit ⊢
      split_ifs at hfit ⊢ <;> omega
    rw [hposition,hnew _ (by omega) (by omega)]
    congr 1
    omega

/-- The window behind the first cells of a window. -/
theorem Stored.drop (h : Stored memory base size start (xs ++ ys)) (hstart : start < size)
    (hfit : xs.length + ys.length ≤ size) :
    Stored memory base size (wrap size (start + xs.length)) ys := by
  intro k hk
  have hcell := h (xs.length + k) (by rw [List.length_append]; omega)
  rw [List.getElem_append_right (by omega)] at hcell
  rw [wrap_wrap_add (by omega) (by omega),Int.add_assoc,← Int.natCast_add,hcell]
  congr 1
  omega

/-- A block copy out of a window copies its cells. -/
theorem Stored.copy (h : Stored memory base size start xs) (fill : α) {dst : Int → α}
    {d k n : Int} (hk : 0 ≤ k) (hp : p = wrap size (start + k)) (hstart : 0 ≤ start)
    (hfit : p + n ≤ size) (hn : k + n ≤ xs.length) :
    copy dst d memory (base + p) n = copy dst d (image fill xs) k n := by
  apply copy_congr
  intro j hj hlt
  have hcell := h (k + j).toNat (by omega)
  have hposition : wrap size (start + (k + j).toNat) = p + j := by
    subst hp
    unfold wrap at hfit ⊢
    split_ifs at hfit ⊢ <;> omega
  rw [hposition] at hcell
  have hlength : (k + j).toNat < xs.length := by omega
  have himage : image fill xs (k + j).toNat = xs[(k + j).toNat] := image_getElem hlength
  rw [Int.toNat_of_nonneg (by omega)] at himage
  rw [himage,← hcell,Int.add_assoc]

end MemoryRing
