import Mathlib.Data.List.Basic
import Mathlib.Data.List.Flatten

/-!
# Streams of frames

A stream carries frames one behind the other. A part of it carries some of them completely, and
the beginning of the next one.
-/

namespace Framing

variable {α β : Type*} {encode : α → List β} {frames : List α}

/-- The frames that end within the first `n` items of the stream. -/
def completed (encode : α → List β) : List α → Nat → List α
  | [], _ => []
  | u :: frames, n =>
      if (encode u).length ≤ n then u :: completed encode frames (n - (encode u).length) else []

/-- What has arrived of the first of the frames that are not complete. -/
def Begins (encode : α → List β) (rest : List β) : List α → Prop
  | [] => rest = []
  | u :: _ => rest <+: encode u ∧ rest.length < (encode u).length

theorem completed_of_le {u : α} {n : Nat} (h : (encode u).length ≤ n) (frames : List α) :
    completed encode (u :: frames) n =
      u :: completed encode frames (n - (encode u).length) := if_pos h

theorem completed_of_lt {u : α} {n : Nat} (h : n < (encode u).length) (frames : List α) :
    completed encode (u :: frames) n = [] := if_neg (Nat.not_le_of_lt h)

theorem Begins.prefix {rest : List β} (h : Begins encode rest frames) :
    rest <+: frames.flatMap encode := by
  cases frames with
  | nil => exact h ▸ List.nil_prefix
  | cons u frames => exact h.1.trans (List.prefix_append _ _)

/-- A part of a stream: complete frames, and the beginning of the next one. -/
theorem split_of_prefix {part : List β} (h : part <+: frames.flatMap encode) :
    ∃ front remaining rest, frames = front ++ remaining ∧ part = front.flatMap encode ++ rest ∧
      Begins encode rest remaining := by
  induction frames generalizing part with
  | nil => exact ⟨[],[],part,rfl,rfl,List.prefix_nil.mp h⟩
  | cons u frames ih =>
    rw [List.flatMap_cons] at h
    by_cases hle : (encode u).length ≤ part.length
    · obtain ⟨behind,rfl⟩ :=
        List.prefix_of_prefix_length_le (List.prefix_append _ _) h hle
      rw [List.prefix_append_right_inj] at h
      obtain ⟨front,remaining,rest,rfl,rfl,hbegins⟩ := ih h
      exact ⟨u :: front,remaining,rest,rfl,by rw [List.flatMap_cons,List.append_assoc],hbegins⟩
    · have hlt := Nat.lt_of_not_le hle
      exact ⟨[],u :: frames,part,rfl,rfl,
        List.prefix_of_prefix_length_le h (List.prefix_append _ _) (Nat.le_of_lt hlt),hlt⟩

/-- The frames that are complete once more of the stream has arrived. -/
theorem completed_append (front remaining : List α) (n : Nat) :
    completed encode (front ++ remaining) ((front.flatMap encode).length + n) =
      front ++ completed encode remaining n := by
  induction front with
  | nil => rw [List.flatMap_nil,List.length_nil,Nat.zero_add]; rfl
  | cons u front ih =>
    rw [List.flatMap_cons,List.length_append,List.cons_append,completed_of_le (by omega)]
    have hcount : (encode u).length + (front.flatMap encode).length + n - (encode u).length =
        (front.flatMap encode).length + n := by omega
    rw [hcount,ih,List.cons_append]

/-- The complete frames are those in front of the one that has only begun. -/
theorem completed_of_begins {front remaining : List α} {rest : List β}
    (h : Begins encode rest remaining) :
    completed encode (front ++ remaining) (front.flatMap encode ++ rest).length = front := by
  have hnone : completed encode remaining rest.length = [] := by
    cases remaining with
    | nil => rfl
    | cons u remaining => exact completed_of_lt h.2 remaining
  rw [List.length_append,completed_append,hnone,List.append_nil]

/-- With the whole stream all frames are complete. -/
theorem completed_flatMap (frames : List α) :
    completed encode frames (frames.flatMap encode).length = frames := by
  have hall : completed encode (frames ++ []) ((frames.flatMap encode).length + 0) =
      frames ++ completed encode [] 0 :=
    completed_append frames [] 0
  rw [List.append_nil,Nat.add_zero] at hall
  exact hall.trans (List.append_nil frames)

end Framing
