import Mathlib.Tactic.ByContra

/-!
# Runs of positions

A maximal run of a property of positions is a stretch on which it holds, bounded on either side
by a position without it or by the beginning.
-/

namespace PositionRun

variable {P : Nat → Prop} {i s n : Nat}

/-- The `n` positions from `s` on have the property, and the ones next to them do not. -/
structure IsMaximal (P : Nat → Prop) (s n : Nat) : Prop where
  nonempty : 0 < n
  holds : ∀ k, s ≤ k → k < s + n → P k
  left : ∀ k, k + 1 = s → ¬P k
  right : ¬P (s + n)

/-- A scan from the left has come to `i` with a stretch open that began at `s`. -/
structure IsOpen (P : Nat → Prop) (s i : Nat) : Prop where
  begun : s < i
  holds : ∀ k, s ≤ k → k < i → P k
  left : ∀ k, k + 1 = s → ¬P k

/-- A scan from the left has come to `i` with no stretch open. -/
def IsClosed (P : Nat → Prop) (i : Nat) : Prop := ∀ k, k + 1 = i → ¬P k

theorem IsClosed.begin (h : IsClosed P i) (hi : P i) : IsOpen P i (i + 1) := by
  refine ⟨Nat.lt_succ_self i,fun k hlow hhigh => ?_,h⟩
  obtain rfl : k = i := by omega
  exact hi

theorem IsOpen.extend (h : IsOpen P s i) (hi : P i) : IsOpen P s (i + 1) := by
  refine ⟨Nat.lt_succ_of_lt h.begun,fun k hlow hhigh => ?_,h.left⟩
  by_cases hk : k = i
  · exact hk ▸ hi
  · exact h.holds k hlow (by omega)

theorem isClosed_succ (hi : ¬P i) : IsClosed P (i + 1) := by
  intro k hk
  obtain rfl : k = i := by omega
  exact hi

/-- The first position without the property ends the open stretch. -/
theorem IsOpen.isMaximal (h : IsOpen P s i) (hi : ¬P i) : IsMaximal P s (i - s) := by
  have hbegun := h.begun
  have hend : s + (i - s) = i := by omega
  refine ⟨by omega,fun k hlow hhigh => h.holds k hlow (by omega),h.left,?_⟩
  rwa [hend]

/-- The maximal runs from the beginning of the open stretch on: it, and those behind its end. -/
theorem IsOpen.eq_or_behind (h : IsOpen P s i) (hi : ¬P i) {s' n : Nat}
    (hrun : IsMaximal P s' n) (hle : s ≤ s') : (s' = s ∧ n = i - s) ∨ i < s' := by
  have hbegun := h.begun
  have hpos := hrun.nonempty
  by_cases hsame : s' = s
  · subst hsame
    refine .inl ⟨rfl,?_⟩
    -- a shorter run ends inside the stretch, a longer one covers its end
    by_contra hne
    rcases Nat.lt_or_gt_of_ne hne with hless | hmore
    · exact hrun.right (h.holds (s' + n) (by omega) (by omega))
    · exact hi (hrun.holds i (by omega) (by omega))
  · refine .inr ?_
    by_contra hinside
    exact hrun.left (s' - 1) (by omega) (h.holds (s' - 1) (by omega) (by omega))

/-- No maximal run begins at a position without the property. -/
theorem IsMaximal.ne_of_not (hrun : IsMaximal P s n) (hi : ¬P i) : s ≠ i := by
  rintro rfl
  exact hi (hrun.holds s (Nat.le_refl s) (Nat.lt_add_of_pos_right hrun.nonempty))

variable {Q : Nat → Nat → Prop}

/-- Behind the last position with the property there is no run. -/
theorem not_exists_from (hnone : ∀ j, i ≤ j → ¬P j) :
    ¬∃ s n, i ≤ s ∧ IsMaximal P s n ∧ Q s n := by
  rintro ⟨s,n,hle,hrun,-⟩
  exact hrun.ne_of_not (hnone s hle) rfl

/-- The runs from a position without the property on are those from the next position on. -/
theorem exists_from_succ (hi : ¬P i) :
    (∃ s n, i ≤ s ∧ IsMaximal P s n ∧ Q s n) ↔ ∃ s n, i + 1 ≤ s ∧ IsMaximal P s n ∧ Q s n := by
  constructor
  · rintro ⟨s,n,hle,hrun,hq⟩
    exact ⟨s,n,Nat.lt_of_le_of_ne hle (hrun.ne_of_not hi).symm,hrun,hq⟩
  · rintro ⟨s,n,hle,hrun,hq⟩
    exact ⟨s,n,Nat.le_of_succ_le hle,hrun,hq⟩

/-- The runs from the beginning of the open stretch on, at the position that ends it. -/
theorem IsOpen.exists_from (h : IsOpen P s i) (hi : ¬P i) :
    (∃ s' n, s ≤ s' ∧ IsMaximal P s' n ∧ Q s' n) ↔
      Q s (i - s) ∨ ∃ s' n, i + 1 ≤ s' ∧ IsMaximal P s' n ∧ Q s' n := by
  have hbegun := h.begun
  constructor
  · rintro ⟨s',n,hle,hrun,hq⟩
    rcases h.eq_or_behind hi hrun hle with ⟨rfl,rfl⟩ | hbehind
    · exact .inl hq
    · exact .inr ⟨s',n,hbehind,hrun,hq⟩
  · rintro (hq | ⟨s',n,hle,hrun,hq⟩)
    · exact ⟨s,i - s,Nat.le_refl s,h.isMaximal hi,hq⟩
    · exact ⟨s',n,by omega,hrun,hq⟩

end PositionRun
