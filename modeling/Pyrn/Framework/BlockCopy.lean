import Mathlib.Data.List.GetD

/-!
# Block copies between unbounded memories

A memory is a function from addresses. A block copy overwrites the cells from one address on
by the cells of another memory; a count that is not positive copies nothing.
-/

namespace BlockCopy

variable {α : Type*}

/-- `memcpy(dst + d, src + s, n)`. -/
def copy (dst : Int → α) (d : Int) (src : Int → α) (s n : Int) : Int → α :=
  fun x => if d ≤ x ∧ x < d + n then src (s + (x - d)) else dst x

/-- The `n` cells from `start` on. -/
def cells (memory : Int → α) (start : Int) (n : Nat) : List α :=
  (List.range n).map fun k => memory (start + (k : Nat))

/-- A memory that starts with the given cells. -/
def image (fill : α) (xs : List α) : Int → α :=
  fun x => if 0 ≤ x then xs.getD x.toNat fill else fill

theorem copy_inside {dst src : Int → α} {d s n x : Int} (hlow : d ≤ x) (hhigh : x < d + n) :
    copy dst d src s n x = src (s + (x - d)) := if_pos ⟨hlow,hhigh⟩

theorem copy_outside {dst src : Int → α} {d s n x : Int} (h : x < d ∨ d + n ≤ x) :
    copy dst d src s n x = dst x := if_neg (by omega)

theorem copy_of_nonpos {dst src : Int → α} {d s n : Int} (h : n ≤ 0) :
    copy dst d src s n = dst := by
  funext x
  exact copy_outside (by omega)

/-- Two copies of adjacent blocks are one. -/
theorem copy_copy {dst src : Int → α} {d s m n : Int} (hm : 0 ≤ m) (hn : 0 ≤ n) :
    copy (copy dst d src s m) (d + m) src (s + m) n = copy dst d src s (m + n) := by
  funext x
  by_cases hfirst : x < d + m
  · rw [copy_outside (.inl hfirst)]
    by_cases hlow : d ≤ x
    · rw [copy_inside hlow hfirst,copy_inside hlow (by omega)]
    · rw [copy_outside (by omega),copy_outside (by omega)]
  · by_cases hlast : x < d + (m + n)
    · rw [copy_inside (by omega) (by omega),copy_inside (by omega) hlast]
      congr 1
      omega
    · rw [copy_outside (by omega),copy_outside (by omega),copy_outside (by omega)]

theorem copy_congr {dst src src' : Int → α} {d s s' n : Int}
    (h : ∀ j, 0 ≤ j → j < n → src (s + j) = src' (s' + j)) :
    copy dst d src s n = copy dst d src' s' n := by
  funext x
  by_cases hbytes : d ≤ x ∧ x < d + n
  · rw [copy_inside hbytes.1 hbytes.2,copy_inside hbytes.1 hbytes.2,h _ (by omega) (by omega)]
  · rw [copy_outside (by omega),copy_outside (by omega)]

@[simp] theorem cells_length (memory : Int → α) (start : Int) (n : Nat) :
    (cells memory start n).length = n := by simp [cells]

theorem cells_getElem {memory : Int → α} {start : Int} {n k : Nat}
    (h : k < (cells memory start n).length) : (cells memory start n)[k] = memory (start + k) := by
  simp [cells]

theorem cells_add (memory : Int → α) (start : Int) (m n : Nat) :
    cells memory start (m + n) = cells memory start m ++ cells memory (start + m) n := by
  simp only [cells,List.range_add,List.map_append,List.map_map]
  congr 2
  funext k
  simp only [Function.comp_apply,Int.natCast_add]
  congr 1
  omega

theorem image_getElem {fill : α} {xs : List α} {k : Nat} (h : k < xs.length) :
    image fill xs k = xs[k] := by
  rw [image,if_pos (by omega),Int.toNat_natCast,List.getD_eq_getElem _ _ h]

/-- The middle of a list, seen from its beginning. -/
theorem image_append {fill : α} {xs ys zs : List α} {j : Int} (hlow : 0 ≤ j)
    (hhigh : j < ys.length) : image fill (xs ++ (ys ++ zs)) (xs.length + j) = image fill ys j := by
  obtain ⟨k,rfl⟩ := Int.eq_ofNat_of_zero_le hlow
  have hk : k < ys.length := by omega
  rw [← Int.natCast_add,image_getElem (by simp only [List.length_append]; omega),
    image_getElem hk,List.getElem_append_right (by omega),List.getElem_append_left (by omega)]
  congr 1
  omega

theorem cells_image {fill : α} (xs : List α) : cells (image fill xs) 0 xs.length = xs := by
  apply List.ext_getElem (by simp)
  intro k hk hxs
  rw [cells_getElem,Int.zero_add,image_getElem hxs]

theorem cells_copy_image {fill : α} {dst : Int → α} (xs ys : List α) :
    cells (copy dst 0 (image fill (xs ++ ys)) 0 xs.length) 0 xs.length = xs := by
  apply List.ext_getElem (by simp)
  intro k hk hxs
  rw [cells_getElem,copy_inside (by omega) (by omega)]
  have hlength : k < (xs ++ ys).length := by
    rw [List.length_append]
    omega
  have himage : image fill (xs ++ ys) k = (xs ++ ys)[k] := image_getElem hlength
  rw [List.getElem_append_left hxs] at himage
  rw [← himage]
  congr 1
  omega

end BlockCopy
