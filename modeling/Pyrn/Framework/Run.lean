import Mathlib.Data.List.Forall2
import Mathlib.Data.List.Induction

/-!
# Runs of a transition system

A step function that may fail, in any monad, is iterated over a list of inputs, collecting the
outputs. A total abstract system over the same inputs and outputs is refined when related states
with an admissible input step to related states with the same output.
-/

namespace Transition

universe u v w

variable {σ ο : Type u} {τ : Type v} {ι : Type w} {m : Type u → Type*} [Monad m]

/-- Feed a list of inputs to a step function. -/
def run (step : σ → ι → m (ο × σ)) : σ → List ι → m (List ο × σ)
  | state, [] => pure ([],state)
  | state, input :: inputs => do
      let (output,next) ← step state input
      let (outputs,last) ← run step next inputs
      return (output :: outputs,last)

/-- Feed a list of inputs to a total step function. -/
def runTotal (step : τ → ι → ο × τ) : τ → List ι → List ο × τ
  | state, [] => ([],state)
  | state, input :: inputs =>
      let rest := runTotal step (step state input).2 inputs
      ((step state input).1 :: rest.1,rest.2)

/-- Every input of the list is admissible in the abstract state it meets. -/
def Admissible (step : τ → ι → ο × τ) (ok : τ → ι → Prop) : τ → List ι → Prop
  | _, [] => True
  | state, input :: inputs => ok state input ∧ Admissible step ok (step state input).2 inputs

instance decidableAdmissible {step : τ → ι → ο × τ} {ok : τ → ι → Prop}
    [∀ t input, Decidable (ok t input)] : ∀ t inputs, Decidable (Admissible step ok t inputs)
  | _, [] => inferInstanceAs (Decidable True)
  | t, input :: inputs =>
      have : Decidable (Admissible step ok (step t input).2 inputs) :=
        decidableAdmissible (step t input).2 inputs
      inferInstanceAs (Decidable (ok t input ∧ Admissible step ok (step t input).2 inputs))

/-- Steps that simulate the abstract ones, up to a relation on the outputs, give runs that do. -/
theorem run_simulates {ο' : Type*} [LawfulMonad m] {step : σ → ι → m (ο × σ)}
    {abstractStep : τ → ι → ο' × τ} {ok : τ → ι → Prop} {R : σ → τ → Prop} {Q : ο → ο' → Prop}
    (hstep : ∀ s t input, R s t → ok t input → ∃ output s', step s input = pure (output,s') ∧
      Q output (abstractStep t input).1 ∧ R s' (abstractStep t input).2)
    (inputs : List ι) (s : σ) (t : τ) (hrel : R s t) (hok : Admissible abstractStep ok t inputs) :
    ∃ outputs s', run step s inputs = pure (outputs,s') ∧
      List.Forall₂ Q outputs (runTotal abstractStep t inputs).1 ∧
      R s' (runTotal abstractStep t inputs).2 := by
  induction inputs generalizing s t with
  | nil => exact ⟨[],s,rfl,List.Forall₂.nil,hrel⟩
  | cons input inputs ih =>
    obtain ⟨output,s₁,hfirst,hout,hrel₁⟩ := hstep s t input hrel hok.1
    obtain ⟨outputs,s₂,hrest,houts,hrel₂⟩ := ih s₁ _ hrel₁ hok.2
    refine ⟨output :: outputs,s₂,?_,List.Forall₂.cons hout houts,hrel₂⟩
    simp [run,hfirst,hrest]

/-- One refined step per input refines every admissible run. -/
theorem run_refines [LawfulMonad m] {step : σ → ι → m (ο × σ)} {abstractStep : τ → ι → ο × τ}
    {ok : τ → ι → Prop} {R : σ → τ → Prop}
    (hstep : ∀ s t input, R s t → ok t input →
      ∃ s', step s input = pure ((abstractStep t input).1,s') ∧ R s' (abstractStep t input).2)
    (inputs : List ι) (s : σ) (t : τ) (hrel : R s t) (hok : Admissible abstractStep ok t inputs) :
    ∃ s', run step s inputs = pure ((runTotal abstractStep t inputs).1,s') ∧
      R s' (runTotal abstractStep t inputs).2 := by
  have hequal : ∀ s t input, R s t → ok t input → ∃ output s', step s input = pure (output,s') ∧
      output = (abstractStep t input).1 ∧ R s' (abstractStep t input).2 := by
    intro s t input hrel hok
    obtain ⟨s',hfirst,hrel'⟩ := hstep s t input hrel hok
    exact ⟨_,s',hfirst,rfl,hrel'⟩
  obtain ⟨outputs,s',hrun,houts,hrel'⟩ := run_simulates hequal inputs s t hrel hok
  rw [List.forall₂_eq_eq_eq] at houts
  exact ⟨s',by rw [hrun,houts],hrel'⟩

theorem admissible_of_forall {step : τ → ι → ο × τ} {ok : τ → ι → Prop}
    (hok : ∀ t input, ok t input) (t : τ) (inputs : List ι) : Admissible step ok t inputs := by
  induction inputs generalizing t with
  | nil => exact trivial
  | cons input inputs ih => exact ⟨hok t input,ih _⟩

/-- What every step keeps in balance, a run keeps in balance: the initial contents and all that
is received are all that is sent and the final contents. -/
theorem runTotal_conserves {α : Type*} {step : τ → ι → ο × τ} (contents : τ → List α)
    (received sent : ο → List α)
    (hstep : ∀ t input, contents t ++ received (step t input).1 =
      sent (step t input).1 ++ contents (step t input).2) (inputs : List ι) (t : τ) :
    contents t ++ (runTotal step t inputs).1.flatMap received =
      (runTotal step t inputs).1.flatMap sent ++ contents (runTotal step t inputs).2 := by
  induction inputs generalizing t with
  | nil => simp [runTotal]
  | cons input inputs ih =>
    have hrest := ih (step t input).2
    rw [runTotal]
    simp only [List.flatMap_cons]
    rw [← List.append_assoc,hstep,List.append_assoc,hrest,List.append_assoc]

theorem flatMap_eq_of_forall₂ {ο₁ ο₂ α : Type*} {f : ο₁ → List α} {g : ο₂ → List α}
    {xs : List ο₁} {ys : List ο₂} (h : List.Forall₂ (fun x y => f x = g y) xs ys) :
    xs.flatMap f = ys.flatMap g := by
  induction h with
  | nil => rfl
  | cons hhead _ ih => rw [List.flatMap_cons,List.flatMap_cons,hhead,ih]

theorem forall_mem_runTotal {step : τ → ι → ο × τ} {P : ο → Prop}
    (hstep : ∀ t input, P (step t input).1) (inputs : List ι) (t : τ) :
    ∀ output ∈ (runTotal step t inputs).1, P output := by
  induction inputs generalizing t with
  | nil =>
    intro output hmem
    cases hmem
  | cons input inputs ih =>
    intro output hmem
    rcases List.mem_cons.mp hmem with rfl | hmem
    · exact hstep t input
    · exact ih _ output hmem

theorem runTotal_append {step : τ → ι → ο × τ} (t : τ) (before after : List ι) :
    runTotal step t (before ++ after) =
      ((runTotal step t before).1 ++ (runTotal step (runTotal step t before).2 after).1,
        (runTotal step (runTotal step t before).2 after).2) := by
  induction before generalizing t with
  | nil => rfl
  | cons input before ih => rw [List.cons_append,runTotal,ih,runTotal,List.cons_append]

/-- What admissible steps keep, and what holds of their outputs, carries over to runs. -/
theorem runTotal_keeps {step : τ → ι → ο × τ} {ok : τ → ι → Prop} {I : τ → Prop} {Q : ο → Prop}
    (hstep : ∀ t input, I t → ok t input → I (step t input).2 ∧ Q (step t input).1)
    (inputs : List ι) (t : τ) (ht : I t) (hok : Admissible step ok t inputs) :
    I (runTotal step t inputs).2 ∧ ∀ output ∈ (runTotal step t inputs).1, Q output := by
  induction inputs generalizing t with
  | nil =>
    refine ⟨ht,fun output hmem => ?_⟩
    cases hmem
  | cons input inputs ih =>
    obtain ⟨hnext,houtput⟩ := hstep t input ht hok.1
    obtain ⟨hlast,hrest⟩ := ih _ hnext hok.2
    refine ⟨hlast,fun output hmem => ?_⟩
    rcases List.mem_cons.mp hmem with rfl | hmem
    · exact houtput
    · exact hrest output hmem

/-- Every input of a run meets a condition on the state in which the run feeds it. -/
def Meets (step : σ → ι → m (ο × σ)) (ok : σ → ι → Prop) : σ → List ι → Prop
  | _, [] => True
  | state, input :: inputs => ok state input ∧
      ∀ output next, step state input = pure (output,next) → Meets step ok next inputs

theorem meets_of_forall_mem {step : σ → ι → m (ο × σ)} {ok : σ → ι → Prop} {inputs : List ι}
    (hok : ∀ input ∈ inputs, ∀ s, ok s input) (s : σ) : Meets step ok s inputs := by
  induction inputs generalizing s with
  | nil => exact trivial
  | cons input inputs ih =>
    refine ⟨hok input List.mem_cons_self s,fun _ next _ => ih ?_ next⟩
    exact fun other hmem => hok other (List.mem_cons_of_mem _ hmem)

/-- Conditions that agree under an invariant of the steps agree along runs. -/
theorem meets_congr {step : σ → ι → m (ο × σ)} {ok ok' : σ → ι → Prop} {I : σ → Prop}
    (hinv : ∀ s input output s', I s → step s input = pure (output,s') → I s')
    (hstep : ∀ s input, I s → (ok s input ↔ ok' s input)) (inputs : List ι) {s : σ} (hs : I s) :
    Meets step ok s inputs ↔ Meets step ok' s inputs := by
  induction inputs generalizing s with
  | nil => exact Iff.rfl
  | cons input inputs ih =>
    rw [Meets,Meets]
    refine and_congr (hstep s input hs) (forall_congr' fun output => ?_)
    refine forall_congr' fun next => forall_congr' fun hnext => ?_
    exact ih (hinv s input output next hs hnext)

/-- What every admissible step keeps, a run of admissible steps keeps. -/
theorem run_keeps [LawfulMonad m] {step : σ → ι → m (ο × σ)} {ok : σ → ι → Prop} {I : σ → Prop}
    (hstep : ∀ s input, I s → ok s input → ∃ output s', step s input = pure (output,s') ∧ I s')
    (inputs : List ι) (s : σ) (hs : I s) (hok : Meets step ok s inputs) :
    ∃ outputs s', run step s inputs = pure (outputs,s') ∧ I s' := by
  induction inputs generalizing s with
  | nil => exact ⟨[],s,rfl,hs⟩
  | cons input inputs ih =>
    obtain ⟨output,s₁,hfirst,hs₁⟩ := hstep s input hs hok.1
    obtain ⟨outputs,s₂,hrest,hs₂⟩ := ih s₁ hs₁ (hok.2 output s₁ hfirst)
    exact ⟨output :: outputs,s₂,by simp [run,hfirst,hrest],hs₂⟩

theorem run_cons_eq_some_iff {step : σ → ι → Option (ο × σ)} {s next s' : σ} {input : ι}
    {inputs : List ι} {output : ο} {outputs : List ο} (hfirst : step s input = some (output,next)) :
    run step s (input :: inputs) = some (outputs,s') ↔
      ∃ rest, outputs = output :: rest ∧ run step next inputs = some (rest,s') := by
  rw [run,hfirst]
  cases hrest : run step next inputs with
  | none => simp [hrest]
  | some reached =>
    obtain ⟨rest,last⟩ := reached
    simp [hrest,eq_comm]

theorem run_append {step : σ → ι → Option (ο × σ)} (before after : List ι) (s : σ) :
    run step s (before ++ after) = (run step s before).bind fun reached =>
      (run step reached.2 after).map fun last => (reached.1 ++ last.1,last.2) := by
  induction before generalizing s with
  | nil =>
    rw [List.nil_append,run,Option.pure_def,Option.bind_some]
    cases run step s after <;> rfl
  | cons input before ih =>
    rw [List.cons_append,run,run]
    cases step s input with
    | none => rfl
    | some first =>
      simp only [Option.bind_eq_bind,Option.bind_some,ih]
      cases run step first.2 before with
      | none => rfl
      | some middle =>
        simp only [Option.bind_some,Option.pure_def]
        cases run step middle.2 after <;> rfl

/-- The states that runs lead to. -/
def Reaches (step : σ → ι → Option (ο × σ)) (s s' : σ) : Prop :=
  ∃ inputs outputs, run step s inputs = some (outputs,s')

theorem Reaches.refl {step : σ → ι → Option (ο × σ)} (s : σ) : Reaches step s s :=
  ⟨[],[],rfl⟩

theorem Reaches.step {step : σ → ι → Option (ο × σ)} {s s₁ s₂ : σ} {input : ι} {output : ο}
    (hreach : Reaches step s s₁) (hstep : step s₁ input = some (output,s₂)) :
    Reaches step s s₂ := by
  obtain ⟨inputs,outputs,hrun⟩ := hreach
  refine ⟨inputs ++ [input],outputs ++ [output],?_⟩
  rw [run_append,hrun]
  simp [run,hstep]

theorem Reaches.trans {step : σ → ι → Option (ο × σ)} {s s₁ s₂ : σ} (hfirst : Reaches step s s₁)
    (hrest : Reaches step s₁ s₂) : Reaches step s s₂ := by
  obtain ⟨before,outputs,hbefore⟩ := hfirst
  obtain ⟨after,outputs',hafter⟩ := hrest
  refine ⟨before ++ after,outputs ++ outputs',?_⟩
  rw [run_append,hbefore,Option.bind_some,hafter]
  rfl

/-- What every step keeps, runs keep. -/
theorem run_invariant {step : σ → ι → Option (ο × σ)} {I : σ → Prop}
    (hstep : ∀ s input output s', I s → step s input = some (output,s') → I s')
    {inputs : List ι} {s s' : σ} {outputs : List ο} (hs : I s)
    (hrun : run step s inputs = some (outputs,s')) : I s' := by
  induction inputs generalizing s outputs with
  | nil => exact (Prod.mk.inj (Option.some.inj hrun)).2 ▸ hs
  | cons input inputs ih =>
    cases hfirst : step s input with
    | none =>
      rw [run,hfirst] at hrun
      cases hrun
    | some reached =>
      obtain ⟨output,next⟩ := reached
      obtain ⟨rest,-,hrest⟩ := (run_cons_eq_some_iff hfirst).mp hrun
      exact ih (hstep s input output next hs hfirst) hrest

/-- Where a step fails, a run fails. -/
theorem Reaches.stuck {step : σ → ι → Option (ο × σ)} {s s₁ : σ} {input : ι}
    (hreach : Reaches step s s₁) (hstep : step s₁ input = none) :
    ∃ inputs, run step s inputs = none := by
  obtain ⟨inputs,outputs,hrun⟩ := hreach
  refine ⟨inputs ++ [input],?_⟩
  rw [run_append,hrun]
  simp [run,hstep]

/-- What steps keep of the state and the observations so far, runs keep. -/
theorem run_observes {ω : Type u} {step : σ → ι → Option (List ω × σ)} {ok : σ → ι → Prop}
    {I : List ω → σ → Prop}
    (hstep : ∀ trace s input output s', I trace s → ok s input →
      step s input = some (output,s') → I (trace ++ output) s')
    (inputs : List ι) (s : σ) (trace : List ω) (hs : I trace s) (hok : Meets step ok s inputs)
    {outputs : List (List ω)} {s' : σ} (hrun : run step s inputs = some (outputs,s')) :
    I (trace ++ outputs.flatten) s' := by
  induction inputs generalizing s trace outputs with
  | nil =>
    obtain ⟨rfl,rfl⟩ := Prod.mk.inj (Option.some.inj hrun)
    rw [List.flatten_nil,List.append_nil]
    exact hs
  | cons input inputs ih =>
    cases hfirst : step s input with
    | none =>
      rw [run,hfirst] at hrun
      cases hrun
    | some reached =>
      obtain ⟨output,next⟩ := reached
      obtain ⟨rest,rfl,hrest⟩ := (run_cons_eq_some_iff hfirst).mp hrun
      rw [List.flatten_cons,← List.append_assoc]
      exact ih next (trace ++ output) (hstep trace s input output next hs hok.1 hfirst)
        (hok.2 output next hfirst) hrest

/-- The same where every input is met. -/
theorem run_observes_all {ω : Type u} {step : σ → ι → Option (List ω × σ)} {I : List ω → σ → Prop}
    (hstep : ∀ trace s input output s', I trace s → step s input = some (output,s') →
      I (trace ++ output) s')
    (inputs : List ι) (s : σ) (trace : List ω) (hs : I trace s) {outputs : List (List ω)} {s' : σ}
    (hrun : run step s inputs = some (outputs,s')) : I (trace ++ outputs.flatten) s' :=
  run_observes (fun trace s input output s' hi (_ : True) => hstep trace s input output s' hi)
    inputs s trace hs (meets_of_forall_mem (fun _ _ _ => trivial) s) hrun

/-- Every observation is justified by those before it. -/
def Justified {ω : Type*} (because : List ω → ω → Prop) (trace : List ω) : Prop :=
  ∀ before o, before ++ [o] <+: trace → because before o

theorem justified_nil {ω : Type*} {because : List ω → ω → Prop} : Justified because [] := by
  intro before o hbefore
  cases before <;> cases List.prefix_nil.mp hbefore

theorem justified_concat {ω : Type*} {because : List ω → ω → Prop} {trace : List ω} {o : ω} :
    Justified because (trace ++ [o]) ↔ Justified because trace ∧ because trace o := by
  constructor
  · intro hall
    exact ⟨fun before o' hbefore => hall before o' (hbefore.trans (List.prefix_append _ _)),
      hall trace o List.prefix_rfl⟩
  · rintro ⟨htrace,hlast⟩ before o' hbefore
    rcases List.prefix_concat_iff.mp hbefore with heq | hprefix
    · obtain ⟨hfront,hone⟩ := List.append_inj' heq rfl
      rw [hfront,List.singleton_inj.mp hone]
      exact hlast
    · exact htrace before o' hprefix

theorem justified_iff_getElem {ω : Type*} {because : List ω → ω → Prop} {trace : List ω} :
    Justified because trace ↔ ∀ k : Fin trace.length, because (trace.take k) (trace.get k) := by
  constructor
  · intro h k
    apply h
    rw [List.get_eq_getElem,List.take_append_getElem]
    exact List.take_prefix _ _
  · rintro h before o ⟨after,rfl⟩
    have hlength : before.length < (before ++ [o] ++ after).length := by
      simp only [List.length_append,List.length_singleton]
      omega
    have hhere := h ⟨before.length,hlength⟩
    simpa using hhere

instance decidableJustified {ω : Type*} {because : List ω → ω → Prop} (trace : List ω)
    [∀ before o, Decidable (because before o)] : Decidable (Justified because trace) :=
  decidable_of_iff (∀ k : Fin trace.length, because (trace.take k) (trace.get k))
    justified_iff_getElem.symm

/-- When a step keeps a property of what has been observed exactly under `ok`, the property holds
all along a run exactly when every input meets `ok`. -/
theorem observed_prefixes_iff {ω : Type u} {step : σ → ι → Option (List ω × σ)}
    {ok : σ → ι → Prop} {I : List ω → σ → Prop} {P : List ω → Prop}
    (hstep : ∀ trace s input output s', I trace s → P trace →
      step s input = some (output,s') → (P (trace ++ output) ↔ ok s input) ∧ I (trace ++ output) s')
    (hfault : ∀ trace s input, I trace s → step s input = none → ok s input)
    (inputs : List ι) (s : σ) (trace : List ω) (hs : I trace s) (hp : P trace) :
    (∀ before, before <+: inputs → ∀ outputs s', run step s before = some (outputs,s') →
        P (trace ++ outputs.flatten)) ↔ Meets step ok s inputs := by
  induction inputs generalizing s trace with
  | nil =>
    constructor
    · intro _
      exact trivial
    · intro _ before hbefore outputs s' hrun
      rw [List.prefix_nil.mp hbefore] at hrun
      obtain ⟨rfl,-⟩ := Prod.mk.inj (Option.some.inj hrun)
      rw [List.flatten_nil,List.append_nil]
      exact hp
  | cons input inputs ih =>
    cases hfirst : step s input with
    | none =>
      constructor
      · intro _
        refine ⟨hfault trace s input hs hfirst,fun output next hnext => ?_⟩
        rw [hfirst] at hnext
        cases hnext
      · intro _ before hbefore outputs s' hrun
        rcases List.prefix_cons_iff.mp hbefore with rfl | ⟨rest,rfl,-⟩
        · obtain ⟨rfl,-⟩ := Prod.mk.inj (Option.some.inj hrun)
          rw [List.flatten_nil,List.append_nil]
          exact hp
        · rw [run,hfirst] at hrun
          cases hrun
    | some reached =>
      obtain ⟨output,next⟩ := reached
      obtain ⟨hok,hnext⟩ := hstep trace s input output next hs hp hfirst
      constructor
      · intro hall
        have hkept : P (trace ++ output) := by
          have hone := hall [input] (List.prefix_append [input] inputs) [output] next
            ((run_cons_eq_some_iff hfirst).mpr ⟨[],rfl,rfl⟩)
          rwa [List.flatten_cons,List.flatten_nil,List.append_nil] at hone
        refine ⟨hok.mp hkept,fun output' next' hnext' => ?_⟩
        rw [hfirst] at hnext'
        obtain ⟨rfl,rfl⟩ := Prod.mk.inj (Option.some.inj hnext')
        apply (ih next (trace ++ output) hnext hkept).mp
        intro before hbefore outputs s' hrest
        have hlater := hall (input :: before) ((List.prefix_cons_inj input).mpr hbefore) _ s'
          ((run_cons_eq_some_iff hfirst).mpr ⟨outputs,rfl,hrest⟩)
        rwa [List.flatten_cons,← List.append_assoc] at hlater
      · rintro ⟨hinput,hrest⟩ before hbefore outputs s' hrun
        rcases List.prefix_cons_iff.mp hbefore with rfl | ⟨rest,rfl,hfront⟩
        · obtain ⟨rfl,-⟩ := Prod.mk.inj (Option.some.inj hrun)
          rw [List.flatten_nil,List.append_nil]
          exact hp
        · obtain ⟨outputs',rfl,hlast⟩ := (run_cons_eq_some_iff hfirst).mp hrun
          rw [List.flatten_cons,← List.append_assoc]
          exact (ih next (trace ++ output) hnext (hok.mpr hinput)).mpr
            (hrest output next hfirst) rest hfront outputs' s' hlast

/-- Every input of the list meets a condition on the state it finds. -/
def Along (next : τ → ι → τ) (ok : τ → ι → Prop) : τ → List ι → Prop
  | _, [] => True
  | state, input :: inputs => ok state input ∧ Along next ok (next state input) inputs

theorem along_concat {next : τ → ι → τ} {ok : τ → ι → Prop} {t : τ} {inputs : List ι}
    {input : ι} : Along next ok t (inputs ++ [input]) ↔
      Along next ok t inputs ∧ ok (inputs.foldl next t) input := by
  induction inputs generalizing t with
  | nil => exact and_comm
  | cons first inputs ih => rw [List.cons_append,Along,ih,Along,and_assoc,List.foldl_cons]

/-- When a step keeps a property of the run so far exactly under `ok`, and with it an invariant,
the property holds all along a run exactly when every input meets `ok`. -/
theorem prefixes_iff_along {next : τ → ι → τ} {ok : τ → ι → Prop} {P J : List ι → Prop} {t : τ}
    (hp : P []) (hJ : J []) (inputs : List ι)
    (hstep : ∀ before input, before ++ [input] <+: inputs → J before → P before →
      (P (before ++ [input]) ↔ ok (before.foldl next t) input) ∧
        (P (before ++ [input]) → J (before ++ [input]))) :
    ((∀ before, before <+: inputs → P before) ↔ Along next ok t inputs) ∧
      ((∀ before, before <+: inputs → P before) → J inputs) := by
  induction inputs using List.reverseRecOn with
  | nil =>
    refine ⟨iff_of_true (fun before hbefore => ?_) trivial,fun _ => hJ⟩
    rw [List.prefix_nil.mp hbefore]
    exact hp
  | append_singleton inputs input ih =>
    obtain ⟨hiff,hinv⟩ := ih fun before input hbefore =>
      hstep before input (hbefore.trans (List.prefix_append _ _))
    have hlast := hstep inputs input List.prefix_rfl
    have hfront (hall : ∀ before, before <+: inputs ++ [input] → P before) :
        ∀ before, before <+: inputs → P before :=
      fun before hbefore => hall before (hbefore.trans (List.prefix_append _ _))
    rw [along_concat]
    refine ⟨⟨fun hall => ?_,?_⟩,fun hall => ?_⟩
    · have hbefore := hfront hall
      exact ⟨hiff.mp hbefore,
        (hlast (hinv hbefore) (hbefore _ List.prefix_rfl)).1.mp (hall _ List.prefix_rfl)⟩
    · rintro ⟨halong,hok⟩ before hbefore
      have hold := hiff.mpr halong
      rcases List.prefix_concat_iff.mp hbefore with rfl | hbefore
      · exact (hlast (hinv hold) (hold _ List.prefix_rfl)).1.mpr hok
      · exact hold before hbefore
    · have hbefore := hfront hall
      exact (hlast (hinv hbefore) (hbefore _ List.prefix_rfl)).2 (hall _ List.prefix_rfl)

/-- When a step keeps the relation exactly under `ok`, the states along a run are related
exactly when every step meets `ok`. -/
theorem related_prefixes_iff {σ : Type*} {step : σ → ι → σ} {next : τ → ι → τ}
    {ok : τ → ι → Prop} {I : σ → Prop} {R : σ → τ → Prop}
    (hinv : ∀ s input, I s → I (step s input))
    (hstep : ∀ s t input, I s → R s t → (R (step s input) (next t input) ↔ ok t input))
    (inputs : List ι) (s : σ) (t : τ) (hs : I s) (hrel : R s t) :
    (∀ before, before <+: inputs → R (before.foldl step s) (before.foldl next t)) ↔
      Along next ok t inputs := by
  refine (prefixes_iff_along (J := fun before => I (before.foldl step s)) hrel hs inputs ?_).1
  intro before input _ hI hR
  rw [List.foldl_append,List.foldl_append]
  exact ⟨hstep _ _ input hI hR,fun _ => hinv _ input hI⟩

section Steps

variable {step : σ → ι → Option σ} {ok : σ → ι → Prop} {I : σ → Prop} {R : σ → ι → σ → Prop}

/-- A run without outputs all of whose steps succeed, reach `I` and are related by `R`. -/
def Keeps (step : σ → ι → Option σ) (I : σ → Prop) (R : σ → ι → σ → Prop) (s : σ)
    (inputs : List ι) : Prop :=
  ∀ before input, before ++ [input] <+: inputs → ∃ s₁ s₂,
    before.foldlM step s = some s₁ ∧ step s₁ input = some s₂ ∧ I s₂ ∧ R s₁ input s₂

/-- Every input meets a condition on the state that it finds. -/
def Finds (step : σ → ι → Option σ) (ok : σ → ι → Prop) (s : σ) (inputs : List ι) : Prop :=
  ∀ before input, before ++ [input] <+: inputs → ∀ s₁, before.foldlM step s = some s₁ →
    ok s₁ input

/-- Behind its last step a run has reached `I`. -/
theorem Keeps.reaches {s : σ} {before : List ι} {input : ι}
    (hkeeps : Keeps step I R s (before ++ [input])) :
    ∃ s', (before ++ [input]).foldlM step s = some s' ∧ I s' := by
  obtain ⟨s₁,s₂,hbefore,hlast,hreached,-⟩ := hkeeps before input List.prefix_rfl
  refine ⟨s₂,?_,hreached⟩
  rw [List.foldlM_append,hbefore]
  simpa using hlast

theorem concat_prefix_cons {before inputs : List ι} {input first : ι} :
    before ++ [input] <+: first :: inputs ↔
      (before = [] ∧ input = first) ∨
        ∃ rest, before = first :: rest ∧ rest ++ [input] <+: inputs := by
  cases before with
  | nil => simp [List.prefix_cons_iff]
  | cons b before => simp [List.cons_prefix_cons]

theorem finds_cons {s : σ} {first : ι} {inputs : List ι} :
    Finds step ok s (first :: inputs) ↔
      ok s first ∧ ∀ s₁, step s first = some s₁ → Finds step ok s₁ inputs := by
  constructor
  · intro hfinds
    refine ⟨hfinds [] first (List.prefix_append [first] inputs) s rfl,fun s₁ hfirst => ?_⟩
    intro before input hbefore s₂ hrun
    apply hfinds (first :: before) input ((List.prefix_cons_inj first).mpr hbefore) s₂
    rw [List.foldlM_cons,hfirst]
    exact hrun
  · rintro ⟨hok,hrest⟩ before input hbefore s₂ hrun
    rcases concat_prefix_cons.mp hbefore with ⟨rfl,rfl⟩ | ⟨rest,rfl,hfront⟩
    · cases hrun
      exact hok
    · rw [List.foldlM_cons] at hrun
      obtain ⟨s₁,hfirst,hlast⟩ := Option.bind_eq_some_iff.mp hrun
      exact hrest s₁ hfirst rest input hfront s₂ hlast

theorem keeps_cons {s : σ} {first : ι} {inputs : List ι} :
    Keeps step I R s (first :: inputs) ↔
      ∃ s₁, step s first = some s₁ ∧ I s₁ ∧ R s first s₁ ∧ Keeps step I R s₁ inputs := by
  constructor
  · intro hkeeps
    obtain ⟨s₀,s₁,hzero,hfirst,hkept,hrel⟩ :=
      hkeeps [] first (List.prefix_append [first] inputs)
    cases hzero
    refine ⟨s₁,hfirst,hkept,hrel,fun before input hbefore => ?_⟩
    obtain ⟨s₂,s₃,hrun,hlast⟩ :=
      hkeeps (first :: before) input ((List.prefix_cons_inj first).mpr hbefore)
    rw [List.foldlM_cons,hfirst] at hrun
    exact ⟨s₂,s₃,hrun,hlast⟩
  · rintro ⟨s₁,hfirst,hkept,hrel,hrest⟩ before input hbefore
    rcases concat_prefix_cons.mp hbefore with ⟨rfl,rfl⟩ | ⟨rest,rfl,hfront⟩
    · exact ⟨s,s₁,rfl,hfirst,hkept,hrel⟩
    · obtain ⟨s₂,s₃,hrun,hlast⟩ := hrest rest input hfront
      refine ⟨s₂,s₃,?_,hlast⟩
      rw [List.foldlM_cons,hfirst]
      exact hrun

/-- When a step succeeds, keeps `I` and is related by `R` exactly under `ok`, a run does so all
along exactly when every input meets `ok`. `A` is what the steps that do so keep besides. -/
theorem keeps_iff_finds_under {A : σ → Prop}
    (hinv : ∀ s input s', A s → I s → step s input = some s' → I s' → R s input s' → A s')
    (hstep : ∀ s input, A s → I s →
      ((∃ s', step s input = some s' ∧ I s' ∧ R s input s') ↔ ok s input))
    (inputs : List ι) {s : σ} (ha : A s) (hs : I s) :
    Keeps step I R s inputs ↔ Finds step ok s inputs := by
  induction inputs generalizing s with
  | nil =>
    have hnone {before : List ι} {input : ι} : ¬before ++ [input] <+: [] := by simp
    exact iff_of_true (fun _ _ h => absurd h hnone) fun _ _ h => absurd h hnone
  | cons first inputs ih =>
    rw [keeps_cons,finds_cons]
    constructor
    · rintro ⟨s₁,hfirst,hkept,hrel,hrest⟩
      refine ⟨(hstep s first ha hs).mp ⟨s₁,hfirst,hkept,hrel⟩,fun s₂ hsecond => ?_⟩
      cases hfirst.symm.trans hsecond
      exact (ih (hinv s first s₁ ha hs hfirst hkept hrel) hkept).mp hrest
    · rintro ⟨hok,hrest⟩
      obtain ⟨s₁,hfirst,hkept,hrel⟩ := (hstep s first ha hs).mpr hok
      exact ⟨s₁,hfirst,hkept,hrel,
        (ih (hinv s first s₁ ha hs hfirst hkept hrel) hkept).mpr (hrest s₁ hfirst)⟩

theorem keeps_iff_finds
    (hstep : ∀ s input, I s →
      ((∃ s', step s input = some s' ∧ I s' ∧ R s input s') ↔ ok s input))
    (inputs : List ι) {s : σ} (hs : I s) :
    Keeps step I R s inputs ↔ Finds step ok s inputs :=
  keeps_iff_finds_under (A := fun _ => True) (fun _ _ _ _ _ _ _ _ => trivial)
    (fun s input _ => hstep s input) inputs trivial hs

end Steps

end Transition
