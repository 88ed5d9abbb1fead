import Pyrn.Can.AcceptanceFilter

/-!
# The entries of the filter table

What the loops of the acceptance filter do to the sequence of the entries: where the search ends,
and which entries an insertion moves. A word that begins with a set bit loses the entry that is
moved into it.
-/

namespace Pyrn.Can.AcceptanceFilter

open HalfWords

section Search

variable {mask : Nat → Word} {e : Half}

theorem search_step {cnt1 : Nat} (hupper : half mask (2 * cnt1) < e)
    (hlower : half mask (2 * cnt1 + 1) < e) (rounds : Nat) :
    search mask (wide e) (rounds + 1) cnt1 = search mask (wide e) rounds (cnt1 + 1) := by
  rw [half_even] at hupper
  rw [half_odd] at hlower
  rw [search,ushiftRight_eq,and_lowMask_eq,if_neg (mt wide_inj.mp hupper.ne),
    if_neg (mt wide_lt_wide.mp hupper.not_gt),if_neg (mt wide_inj.mp hlower.ne),
    if_neg (mt wide_lt_wide.mp hlower.not_gt)]

/-- The search goes past smaller entries. -/
theorem search_skip (rounds : Nat) {cnt1 d : Nat}
    (hsmall : ∀ j,2 * cnt1 ≤ j → j < 2 * (cnt1 + d) → half mask j < e) :
    search mask (wide e) (d + rounds) cnt1 = search mask (wide e) rounds (cnt1 + d) := by
  induction d generalizing cnt1 with
  | zero => rw [Nat.zero_add,Nat.add_zero]
  | succ d ih =>
    have hrounds : d + 1 + rounds = d + rounds + 1 := by omega
    have hword : cnt1 + (d + 1) = cnt1 + 1 + d := by omega
    rw [hrounds,search_step (hsmall _ (by omega) (by omega)) (hsmall _ (by omega) (by omega)),hword]
    exact ih fun j hlow hhigh => hsmall j (by omega) (by omega)

/-- The place of an entry that is found. -/
def samePlace (k : Nat) : Place :=
  if k % 2 = 0 then .sameUpper (k / 2) else .sameLower (k / 2)

variable {p rounds : Nat}

theorem search_skip_to (hp : p < 2 * rounds) (hsmall : ∀ j < p,half mask j < e) :
    ∃ left,search mask (wide e) rounds 0 = search mask (wide e) (left + 1) (p / 2) := by
  have hrounds : rounds = p / 2 + (rounds - p / 2 - 1 + 1) := by omega
  refine ⟨rounds - p / 2 - 1,?_⟩
  have hskip := @search_skip mask e (rounds - p / 2 - 1 + 1) 0 (p / 2)
    (fun j _ hj => hsmall j (by omega))
  rw [← hrounds,Nat.zero_add] at hskip
  exact hskip

theorem search_before (hp : p < 2 * rounds) (hsmall : ∀ j < p,half mask j < e)
    (hlarge : e < half mask p) : search mask (wide e) rounds 0 = .before (p / 2) p := by
  obtain ⟨left,hleft⟩ := search_skip_to hp hsmall
  rw [hleft,search,ushiftRight_eq,and_lowMask_eq]
  rcases Nat.mod_two_eq_zero_or_one p with heven | hodd
  · rw [half,if_pos heven] at hlarge
    have hentry : p / 2 * 2 = p := by omega
    rw [if_neg (mt wide_inj.mp hlarge.ne'),if_pos (wide_lt_wide.mpr hlarge),hentry]
  · have hfirst := hsmall (p - 1) (by omega)
    have hword : (p - 1) / 2 = p / 2 := by omega
    rw [half,if_pos (by omega),hword] at hfirst
    rw [half,if_neg (by omega)] at hlarge
    have hentry : p / 2 * 2 + 1 = p := by omega
    rw [if_neg (mt wide_inj.mp hfirst.ne),if_neg (mt wide_lt_wide.mp hfirst.not_gt),
      if_neg (mt wide_inj.mp hlarge.ne'),if_pos (wide_lt_wide.mpr hlarge),hentry]

theorem search_same (hp : p < 2 * rounds) (hsmall : ∀ j < p,half mask j < e)
    (hsame : half mask p = e) : search mask (wide e) rounds 0 = samePlace p := by
  obtain ⟨left,hleft⟩ := search_skip_to hp hsmall
  rw [hleft,search,ushiftRight_eq,and_lowMask_eq,samePlace]
  rcases Nat.mod_two_eq_zero_or_one p with heven | hodd
  · rw [half,if_pos heven] at hsame
    rw [if_pos (wide_inj.mpr hsame),if_pos heven]
  · have hfirst := hsmall (p - 1) (by omega)
    have hword : (p - 1) / 2 = p / 2 := by omega
    rw [half,if_pos (by omega),hword] at hfirst
    rw [half,if_neg (by omega)] at hsame
    rw [if_neg (mt wide_inj.mp hfirst.ne),if_neg (mt wide_lt_wide.mp hfirst.not_gt),
      if_pos (wide_inj.mpr hsame),if_neg (by omega)]

theorem search_behind (hsmall : ∀ j < 2 * rounds,half mask j < e) :
    search mask (wide e) rounds 0 = .behind rounds := by
  have hskip := @search_skip mask e 0 0 rounds (fun j _ hj => hsmall j (by omega))
  rw [Nat.add_zero,Nat.zero_add] at hskip
  exact hskip

end Search

section Move

variable {mask : Nat → Word} {e : Half}

/-- The entry that arrives at a position when `last` is moved there: in the upper half of a word
that begins with a set bit it is lost. -/
def arriving (old last : Half) (k : Nat) : Half :=
  if k % 2 = 0 ∧ old.msb = true then 0xFFFF else last

theorem ones_or (x : Half) : 0xFFFF ||| x = 0xFFFF := by
  have hones : (0xFFFF : Half) = BitVec.allOnes 16 := rfl
  rw [hones,BitVec.allOnes_or]

theorem half_moveUp (rounds : Nat) (cnt1 : Nat) (buf0 : Word) (mask : Nat → Word) (k : Nat) :
    half (moveUp rounds cnt1 buf0 mask) k =
      if 2 * cnt1 + 2 ≤ k ∧ k < 2 * (cnt1 + rounds) + 2 then
        arriving (half mask k) (if k = 2 * cnt1 + 2 then lower buf0 else half mask (k - 1)) k
      else half mask k := by
  induction rounds generalizing cnt1 buf0 mask with
  | zero => rw [moveUp,if_neg (by omega)]
  | succ rounds ih =>
    rw [moveUp,ih]
    by_cases hlater : 2 * (cnt1 + 1) + 2 ≤ k
    · have hword : k / 2 ≠ cnt1 + 1 := by omega
      have hbefore : (if k = 2 * (cnt1 + 1) + 2 then lower (mask (cnt1 + 1))
          else half (Function.update mask (cnt1 + 1)
            ((mask (cnt1 + 1)).sshiftRight 16 ||| buf0 <<< 16)) (k - 1)) = half mask (k - 1) := by
        split_ifs with hnext
        · have hprev : k - 1 = 2 * (cnt1 + 1) + 1 := by omega
          rw [hprev,half_odd]
        · exact half_update_of_ne (by omega)
      rw [hbefore,half_update_of_ne hword]
      have hin : (2 * (cnt1 + 1) + 2 ≤ k ∧ k < 2 * (cnt1 + 1 + rounds) + 2) ↔
          2 * cnt1 + 2 ≤ k ∧ k < 2 * (cnt1 + (rounds + 1)) + 2 := by omega
      have hfar : k ≠ 2 * cnt1 + 2 := by omega
      rw [if_neg hfar]
      exact if_congr hin rfl rfl
    · rw [if_neg (by omega)]
      by_cases hhere : k / 2 = cnt1 + 1
      · have hin : 2 * cnt1 + 2 ≤ k ∧ k < 2 * (cnt1 + (rounds + 1)) + 2 := by omega
        rw [half_update_self hhere,if_pos hin,arriving]
        rcases Nat.mod_two_eq_zero_or_one k with heven | hodd
        · have hfirst : k = 2 * cnt1 + 2 := by omega
          rw [if_pos heven,if_pos hfirst,half,if_pos heven,hhere]
          simp only [upper_or,upper_sshiftRight,upper_shiftLeft,heven,true_and]
          split_ifs
          · exact ones_or _
          · exact BitVec.zero_or
        · have hprev : k - 1 = 2 * (cnt1 + 1) := by omega
          have hsecond : k ≠ 2 * cnt1 + 2 := by omega
          have hnot : ¬k % 2 = 0 := by omega
          rw [if_neg hnot,if_neg (fun h => hnot h.1),if_neg hsecond,hprev,half_even]
          simp
      · rw [half_update_of_ne hhere,if_neg (by omega)]

/-- The entries after an insertion. -/
theorem half_insertAt (n : Nat) (e : Half) (mask : Nat → Word) {p : Nat} (hp : p / 2 ≤ n / 2)
    (k : Nat) :
    half (insertAt n (p / 2) p (wide e) mask) k =
      if k < p then half mask k
      else if k < 2 * (n / 2) + 2 then
        arriving (half mask k) (if k = p then e else half mask (k - 1)) k
      else half mask k := by
  have hrange : p / 2 + (n / 2 - p / 2) = n / 2 := by omega
  rw [insertAt,half_moveUp,hrange]
  by_cases hlater : 2 * (p / 2) + 2 ≤ k
  · have hword : k / 2 ≠ p / 2 := by omega
    have hbehind : ¬k < p := by omega
    have hfar : k ≠ p := by omega
    rw [half_update_of_ne hword,if_neg hbehind,if_neg hfar]
    by_cases hin : k < 2 * (n / 2) + 2
    · rw [if_pos ⟨hlater,hin⟩,if_pos hin]
      congr 1
      by_cases hnext : k = 2 * (p / 2) + 2
      · have hprev : k - 1 = 2 * (p / 2) + 1 := by omega
        rw [if_pos hnext,hprev,half_odd]
      · rw [if_neg hnext]
        exact half_update_of_ne (by omega)
    · rw [if_neg (fun h => hin h.2),if_neg hin]
  · rw [if_neg (fun h => hlater h.1)]
    by_cases hhere : k / 2 = p / 2
    · rw [half_update_self hhere]
      have hup : upper (0xFFFF0000 : Word) = BitVec.allOnes 16 := rfl
      have hlow : lower (0xFFFF0000 : Word) = 0#16 := rfl
      rcases Nat.mod_two_eq_zero_or_one p with hpeven | hpodd
      · -- the new entry is the upper half, and the old upper half becomes the lower one
        have hin : k < 2 * (n / 2) + 2 := by omega
        have hbehind : ¬k < p := by omega
        rw [if_neg hbehind,if_pos hin,if_pos hpeven,arriving]
        rcases Nat.mod_two_eq_zero_or_one k with hkeven | hkodd
        · have hkp : k = p := by omega
          rw [if_pos hkeven,if_pos hkp,half,if_pos hkeven,hhere]
          simp only [upper_or,upper_sshiftRight,upper_shiftLeft,lower_wide,hkeven,true_and]
          split_ifs
          · rw [BitVec.or_comm]
            exact ones_or _
          · exact BitVec.or_zero
        · have hprev : k - 1 = p := by omega
          have hkp : k ≠ p := by omega
          have hnot : ¬k % 2 = 0 := by omega
          rw [if_neg hnot,if_neg (fun h => hnot h.1),if_neg hkp,hprev,half,if_pos hpeven]
          simp
      · have hpnot : ¬p % 2 = 0 := by omega
        rw [if_neg hpnot]
        rcases Nat.mod_two_eq_zero_or_one k with hkeven | hkodd
        · have hbefore : k < p := by omega
          rw [if_pos hkeven,if_pos hbefore,half,if_pos hkeven,hhere]
          simp only [upper_or,upper_and,hup,upper_wide]
          rw [BitVec.and_allOnes]
          exact BitVec.or_zero
        · have hkp : k = p := by omega
          have hbefore : ¬k < p := by omega
          have hin : k < 2 * (n / 2) + 2 := by omega
          have hnot : ¬k % 2 = 0 := by omega
          rw [if_neg hnot,if_neg hbefore,if_pos hin,arriving,if_neg (fun h => hnot h.1),
            if_pos hkp]
          simp only [lower_or,lower_and,hlow,lower_wide]
          simp
    · have hbefore : k < p := by omega
      rw [half_update_of_ne hhere,if_pos hbefore]

end Move

end Pyrn.Can.AcceptanceFilter
