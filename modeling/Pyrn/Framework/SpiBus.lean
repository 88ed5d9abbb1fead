import Mathlib.Data.List.Basic
import Mathlib.Tactic.TypeStar

/-!
# A serial bus with one slave

The master clocks a word out and a word in at a time, with the slave selected or not. A loop that
polls the slave is told by the words that the slave is about to send.
-/

namespace SpiBus

/-- What a slave, selected or not, does with a word: the word it sends meanwhile, and its state. -/
abbrev Slave (β σ : Type*) := Bool → β → σ → β × σ

variable {β σ : Type*} {slave : Slave β σ} {selected : Bool} {s s' : σ}

/-- The words are clocked out one after the other. -/
def transfer (slave : Slave β σ) (selected : Bool) : List β → σ → List β × σ
  | [], s => ([],s)
  | word :: words, s =>
      match slave selected word s with
      | (answer,s) =>
          match transfer slave selected words s with
          | (answers,s) => (answer :: answers,s)

/-- A word is clocked out to the selected slave, at most `n` times, until an answer is the one
waited for; with it, the number of answers in front of it. -/
def poll (slave : Slave β σ) (word : β) (stop : β → Bool) : Nat → σ → Option (Nat × β) × σ
  | 0, s => (none,s)
  | n + 1, s =>
      match slave true word s with
      | (answer,s) =>
          if stop answer = true then (some (0,answer),s)
          else
            match poll slave word stop n s with
            | (found,s) => (found.map fun p => (p.1 + 1,p.2),s)

@[simp] theorem transfer_nil (s : σ) : transfer slave selected [] s = ([],s) := rfl

theorem transfer_cons (word : β) (words : List β) (s : σ) :
    transfer slave selected (word :: words) s =
      ((slave selected word s).1 ::
          (transfer slave selected words (slave selected word s).2).1,
        (transfer slave selected words (slave selected word s).2).2) := rfl

theorem poll_succ (word : β) (stop : β → Bool) (n : Nat) (s : σ) :
    poll slave word stop (n + 1) s =
      if stop (slave true word s).1 = true then
        (some (0,(slave true word s).1),(slave true word s).2)
      else
        ((poll slave word stop n (slave true word s).2).1.map fun p => (p.1 + 1,p.2),
          (poll slave word stop n (slave true word s).2).2) := rfl

theorem transfer_append (first rest : List β) (s : σ) :
    transfer slave selected (first ++ rest) s =
      ((transfer slave selected first s).1 ++
          (transfer slave selected rest (transfer slave selected first s).2).1,
        (transfer slave selected rest (transfer slave selected first s).2).2) := by
  induction first generalizing s with
  | nil => rfl
  | cons word first ih => rw [List.cons_append,transfer_cons,ih,transfer_cons,List.cons_append]

theorem transfer_length (words : List β) (s : σ) :
    (transfer slave selected words s).1.length = words.length := by
  induction words generalizing s with
  | nil => rfl
  | cons word words ih => rw [transfer_cons,List.length_cons,List.length_cons,ih]

/-- Whatever the master clocks out, the selected slave sends these words. -/
def Sends (slave : Slave β σ) (s : σ) (answers : List β) (s' : σ) : Prop :=
  ∀ words : List β, words.length = answers.length → transfer slave true words s = (answers,s')

theorem Sends.nil (s : σ) : Sends slave s [] s := by
  intro words hlength
  rw [List.eq_nil_of_length_eq_zero hlength]
  rfl

theorem Sends.cons {s₁ : σ} {answer : β} {answers : List β}
    (hfirst : ∀ word, slave true word s = (answer,s₁)) (hrest : Sends slave s₁ answers s') :
    Sends slave s (answer :: answers) s' := by
  intro words hlength
  cases words with
  | nil => cases hlength
  | cons word words =>
    rw [transfer_cons,hfirst word,hrest words (Nat.succ.inj hlength)]

theorem Sends.append {s₁ : σ} {first rest : List β} (hfirst : Sends slave s first s₁)
    (hrest : Sends slave s₁ rest s') : Sends slave s (first ++ rest) s' := by
  intro words hlength
  rw [List.length_append] at hlength
  have htake : (words.take first.length).length = first.length := by
    rw [List.length_take]
    omega
  have hdrop : (words.drop first.length).length = rest.length := by
    rw [List.length_drop]
    omega
  rw [← List.take_append_drop first.length words,transfer_append,hfirst _ htake,hrest _ hdrop]

/-- The first word of what the slave is about to send that is waited for ends the polling. -/
theorem Sends.poll_eq {before : List β} {answer : β} (h : Sends slave s (before ++ [answer]) s')
    (word : β) {stop : β → Bool} (hbefore : ∀ a ∈ before, stop a = false)
    (hanswer : stop answer = true) {n : Nat} (hn : before.length < n) :
    poll slave word stop n s = (some (before.length,answer),s') := by
  have htransfer : transfer slave true (List.replicate before.length word ++ [word]) s =
      (before ++ [answer],s') := h _ (by simp)
  clear h
  induction before generalizing s n with
  | nil =>
    cases n with
    | zero => cases hn
    | succ n =>
      obtain ⟨hfirst,hlast⟩ := Prod.mk.inj htransfer
      have hanswered : (slave true word s).1 = answer := (List.cons.inj hfirst).1
      rw [poll_succ,hanswered,if_pos hanswer]
      exact congrArg (Prod.mk _) hlast
  | cons a before ih =>
    cases n with
    | zero => cases hn
    | succ n =>
      rw [List.length_cons,List.replicate_succ,List.cons_append,transfer_cons] at htransfer
      obtain ⟨hfirst,hlast⟩ := Prod.mk.inj htransfer
      obtain ⟨hanswered,hrest⟩ := List.cons.inj hfirst
      have hpoll := ih (fun b hb => hbefore b (List.mem_cons_of_mem _ hb))
        (Nat.lt_of_succ_lt_succ hn) (Prod.ext hrest hlast)
      rw [poll_succ,hanswered,hbefore a List.mem_cons_self,if_neg Bool.false_ne_true,hpoll]
      rfl

end SpiBus
