import Mathlib.Tactic.ByContra
import Mathlib.Tactic.TypeStar

/-!
# Do-while loops

A loop whose body says whether it goes on. When a measure never rises, the loop ends or comes to
a state from which on every iteration leaves the measure where it is.
-/

namespace DoWhile

/-- What one iteration does: the loop goes on, or it is over. -/
inductive Step (σ : Type*)
  | again (state : σ)
  | done (state : σ)
  deriving DecidableEq, Repr

variable {σ : Type*} {body : σ → Step σ} {s t u : σ} {n fuel : Nat}

/-- The loop, with the state that it leaves. -/
def loop (body : σ → Step σ) : Nat → σ → Option σ
  | 0, _ => none
  | fuel + 1, s =>
      match body s with
      | .again t => loop body fuel t
      | .done t => some t

/-- The state in front of an iteration. -/
def head (body : σ → Step σ) : Nat → σ → Option σ
  | 0, s => some s
  | n + 1, s =>
      match body s with
      | .again t => head body n t
      | .done _ => none

def Ends (body : σ → Step σ) (s : σ) : Prop := ∃ fuel final, loop body fuel s = some final

/-- The states in front of the iterations. -/
def Reaches (body : σ → Step σ) (s t : σ) : Prop := ∃ n, head body n s = some t

/-- The states in front of the iterations, and the one that the loop leaves. -/
def Visits (body : σ → Step σ) (s t : σ) : Prop :=
  Reaches body s t ∨ ∃ last, Reaches body s last ∧ body last = .done t

theorem Reaches.refl (body : σ → Step σ) (s : σ) : Reaches body s s := ⟨0,rfl⟩

theorem head_add (m n : Nat) (s : σ) :
    head body (m + n) s = (head body m s).bind (head body n) := by
  induction m generalizing s with
  | zero => rw [Nat.zero_add]; rfl
  | succ m ih =>
    rw [Nat.succ_add,head,head]
    cases body s with
    | again t => exact ih t
    | done t => rfl

theorem Reaches.of_again (h : body s = .again t) : Reaches body s t :=
  ⟨1,by rw [head,h]; rfl⟩

theorem Reaches.trans (hst : Reaches body s t) (htu : Reaches body t u) : Reaches body s u := by
  obtain ⟨m,hm⟩ := hst
  obtain ⟨n,hn⟩ := htu
  exact ⟨m + n,by rw [head_add,hm,Option.bind_some,hn]⟩

/-- What an iteration keeps holds in front of every iteration. -/
theorem Reaches.invariant {I : σ → Prop} (hkeeps : ∀ s t, I s → body s = .again t → I t)
    (hs : I s) (h : Reaches body s t) : I t := by
  obtain ⟨n,hn⟩ := h
  induction n generalizing s with
  | zero => exact Option.some.inj hn ▸ hs
  | succ n ih =>
    rw [head] at hn
    cases hbody : body s with
    | again u =>
      rw [hbody] at hn
      exact ih (hkeeps s u hs hbody) hn
    | done u =>
      rw [hbody] at hn
      cases hn

theorem Reaches.le {μ : σ → Nat} (h : Reaches body s t)
    (hmono : ∀ t u, Reaches body s t → body t = .again u → μ u ≤ μ t) : μ t ≤ μ s := by
  have hboth : Reaches body s t ∧ μ t ≤ μ s := by
    refine h.invariant (I := fun t => Reaches body s t ∧ μ t ≤ μ s) ?_ ⟨.refl body s,Nat.le_refl _⟩
    rintro t u ⟨ht,hle⟩ hbody
    exact ⟨ht.trans (.of_again hbody),Nat.le_trans (hmono t u ht hbody) hle⟩
  exact hboth.2

/-- A loop that always goes on from the states of an invariant does not end. -/
theorem loop_eq_none {I : σ → Prop} (hgoes : ∀ s, I s → ∃ t, body s = .again t ∧ I t)
    (hs : I s) (fuel : Nat) : loop body fuel s = none := by
  induction fuel generalizing s with
  | zero => rfl
  | succ fuel ih =>
    obtain ⟨t,hbody,ht⟩ := hgoes s hs
    rw [loop,hbody]
    exact ih ht

theorem not_ends {I : σ → Prop} (hgoes : ∀ s, I s → ∃ t, body s = .again t ∧ I t) (hs : I s) :
    ¬Ends body s := by
  rintro ⟨fuel,final,hloop⟩
  rw [loop_eq_none hgoes hs] at hloop
  cases hloop

/-- The end of the loop does not depend on where in it one begins. -/
theorem Reaches.ends_iff (h : Reaches body s t) : Ends body s ↔ Ends body t := by
  obtain ⟨n,hn⟩ := h
  induction n generalizing s with
  | zero =>
    obtain rfl := Option.some.inj hn
    exact Iff.rfl
  | succ n ih =>
    rw [head] at hn
    cases hbody : body s with
    | done u =>
      rw [hbody] at hn
      cases hn
    | again u =>
      rw [hbody] at hn
      rw [← ih hn]
      constructor
      · rintro ⟨fuel,final,hloop⟩
        cases fuel with
        | zero => cases hloop
        | succ fuel =>
          rw [loop,hbody] at hloop
          exact ⟨fuel,final,hloop⟩
      · rintro ⟨fuel,final,hloop⟩
        exact ⟨fuel + 1,final,by rw [loop,hbody]; exact hloop⟩

/-- A loop that does not come to an iteration has ended in front of it. -/
theorem ends_of_head_eq_none (h : head body n s = none) : Ends body s := by
  induction n generalizing s with
  | zero => cases h
  | succ n ih =>
    rw [head] at h
    cases hbody : body s with
    | done u => exact ⟨1,u,by rw [loop,hbody]⟩
    | again u =>
      rw [hbody] at h
      exact (Reaches.of_again hbody).ends_iff.mpr (ih h)

/-- From the state on, every iteration goes on and leaves the measure where it is. -/
def Idles (body : σ → Step σ) (μ : σ → Nat) (s : σ) : Prop :=
  ∀ n, ∃ t, head body n s = some t ∧ μ t = μ s

/-- The first iteration of a loop that idles. -/
theorem Idles.again {μ : σ → Nat} (h : Idles body μ s) :
    ∃ t, body s = .again t ∧ μ t = μ s ∧ Idles body μ t := by
  obtain ⟨t,hhead,hμ⟩ := h 1
  rw [head] at hhead
  cases hbody : body s with
  | done u =>
    rw [hbody] at hhead
    cases hhead
  | again u =>
    rw [hbody] at hhead
    obtain rfl : u = t := Option.some.inj hhead
    refine ⟨u,rfl,hμ,fun n => ?_⟩
    obtain ⟨v,hv,hsame⟩ := h (n + 1)
    rw [head,hbody] at hv
    exact ⟨v,hv,hsame.trans hμ.symm⟩

/-- A loop whose measure never rises ends, or it idles from some iteration on. -/
theorem ends_or_idles {μ : σ → Nat} {s : σ}
    (hmono : ∀ t u, Reaches body s t → body t = .again u → μ u ≤ μ t) :
    Ends body s ∨ ∃ t, Reaches body s t ∧ Idles body μ t := by
  induction hμ : μ s using Nat.strongRecOn generalizing s with
  | ind m ih =>
    by_cases hlower : ∃ t, Reaches body s t ∧ μ t < μ s
    · obtain ⟨t,hreaches,hlt⟩ := hlower
      rcases ih (μ t) (hμ ▸ hlt) (fun u v hu => hmono u v (hreaches.trans hu)) rfl with
        hends | ⟨u,hu,hidles⟩
      · exact .inl (hreaches.ends_iff.mpr hends)
      · exact .inr ⟨u,hreaches.trans hu,hidles⟩
    · by_cases hends : Ends body s
      · exact .inl hends
      · refine .inr ⟨s,.refl body s,fun n => ?_⟩
        cases hhead : head body n s with
        | none => exact absurd (ends_of_head_eq_none hhead) hends
        | some t =>
          have hreaches : Reaches body s t := ⟨n,hhead⟩
          have hge : μ s ≤ μ t := Nat.le_of_not_lt fun hlt => hlower ⟨t,hreaches,hlt⟩
          exact ⟨t,rfl,Nat.le_antisymm (hreaches.le hmono) hge⟩

end DoWhile
