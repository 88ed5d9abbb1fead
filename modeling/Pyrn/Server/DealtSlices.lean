import Pyrn.Server.ParseFrameEnds

/-!
# What the data of a record is dealt out to

When the chunks have bytes and are together at least as long as the data, the loop of
`parseFrame` goes through them once: each chunk gets what is left of the data, up to its length.
-/

namespace Pyrn.Server

open PackedStruct

/-- What the chunks get in one round. -/
def dealt : List (Nat × Nat) → List UInt8 → List (List String)
  | [], _ => []
  | chunk :: rest, data =>
      (if data = [] then [] else [hChunk (data.take chunk.2)]) :: dealt rest (data.drop chunk.2)

theorem dealt_nil (rest : List (Nat × Nat)) : dealt rest [] = rest.map fun _ => [] := by
  induction rest with
  | nil => rfl
  | cons chunk rest ih => rw [dealt,if_pos rfl,List.drop_nil,ih,List.map_cons]

/-- A result of the loop does not depend on the fuel. -/
theorem dealData_stable {chunks : List (Nat × Nat)} {rawData : List UInt8} {fuel more : Nat}
    (hmore : fuel ≤ more) {i j : Nat} {datas result : List (List String)}
    (hresult : dealData chunks rawData fuel i j datas = .ok result) :
    dealData chunks rawData more i j datas = .ok result := by
  induction fuel generalizing more i j datas with
  | zero => cases hresult
  | succ fuel ih =>
    obtain ⟨more,rfl⟩ : ∃ k, more = k + 1 := ⟨more - 1,by omega⟩
    rw [dealData] at hresult ⊢
    split_ifs at hresult ⊢ with hi
    · exact ih (Nat.le_of_succ_le_succ hmore) hresult
    · exact hresult

private theorem modify_behind {α : Type} (xs ys : List α) (y : α) (f : α → α) :
    (xs ++ y :: ys).modify xs.length f = xs ++ f y :: ys := by
  induction xs with
  | nil => rfl
  | cons x xs ih => rw [List.cons_append,List.length_cons,List.modify_succ_cons,ih,List.cons_append]

/-- The loop, with `done` of the chunks behind it. -/
theorem dealData_dealt {done rest : List (Nat × Nat)} {front data : List UInt8}
    {vals : List (List String)} {fuel : Nat} (hfuel : rest.length < fuel)
    (hpos : ∀ chunk ∈ rest, 1 ≤ chunk.2) (hdata : data.length ≤ (rest.map Prod.snd).sum)
    (hvals : vals.length = done.length) :
    dealData (done ++ rest) (front ++ data) fuel front.length done.length
        (vals ++ rest.map fun _ => []) = .ok (vals ++ dealt rest data) := by
  induction rest generalizing done front data vals fuel with
  | nil =>
    obtain ⟨fuel,rfl⟩ : ∃ k, fuel = k + 1 := ⟨fuel - 1,by simp at hfuel; omega⟩
    obtain rfl : data = [] := List.length_eq_zero_iff.mp (Nat.le_zero.mp hdata)
    rw [dealData,if_neg (by simp)]
    rfl
  | cons chunk rest ih =>
    obtain ⟨fuel,rfl⟩ : ∃ k, fuel = k + 1 := ⟨fuel - 1,by simp at hfuel; omega⟩
    by_cases hnone : data = []
    · subst hnone
      rw [dealData,if_neg (by simp),dealt_nil]
    have hlen : 1 ≤ chunk.2 := hpos chunk List.mem_cons_self
    rw [List.map_cons,List.sum_cons] at hdata
    have hmore : front.length < (front ++ data).length := by
      rw [List.length_append]
      exact Nat.lt_add_of_pos_right (List.length_pos_iff.mpr hnone)
    have hturn : done.length % (done ++ chunk :: rest).length = done.length := by
      apply Nat.mod_eq_of_lt
      simp
    have hget : (done ++ chunk :: rest).getD done.length (0,0) = chunk := by
      simp
    have hslice : slice (front ++ data) front.length (front.length + chunk.2) =
        data.take chunk.2 := by
      rw [slice,List.drop_left,Nat.add_sub_cancel_left]
    have hmodify : (vals ++ (chunk :: rest).map fun _ => []).modify done.length
        (fun values => values ++ [hChunk (data.take chunk.2)]) =
        (vals ++ [[hChunk (data.take chunk.2)]]) ++ rest.map fun _ => [] := by
      rw [← hvals,List.map_cons,modify_behind,List.append_assoc]
      rfl
    have hdone : done.length + 1 = (done ++ [chunk]).length := by
      rw [List.length_append,List.length_singleton]
    rw [dealData,if_pos hmore]
    simp only
    rw [hturn,hget,hslice,hmodify,hdone,dealt,if_neg hnone,
      show done ++ chunk :: rest = (done ++ [chunk]) ++ rest by simp]
    rcases Nat.le_total chunk.2 data.length with hwhole | hshort
    · have hsplit : front ++ data = (front ++ data.take chunk.2) ++ data.drop chunk.2 := by
        rw [List.append_assoc,List.take_append_drop]
      have hfront : front.length + chunk.2 = (front ++ data.take chunk.2).length := by
        rw [List.length_append,List.length_take,Nat.min_eq_left hwhole]
      rw [hfront,hsplit,ih]
      · rw [List.append_assoc]
        rfl
      · simp at hfuel
        omega
      · exact fun other hmem => hpos other (List.mem_cons_of_mem _ hmem)
      · rw [List.length_drop]
        omega
      · simp [hvals]
    · -- the data ends inside this chunk, and so does the loop
      obtain ⟨fuel,rfl⟩ : ∃ k, fuel = k + 1 := ⟨fuel - 1,by simp at hfuel; omega⟩
      rw [dealData,if_neg (by rw [List.length_append]; omega),
        List.drop_eq_nil_of_le hshort,dealt_nil,List.append_assoc]
      rfl

/-- The whole loop. -/
theorem dealData_eq {chunks : List (Nat × Nat)} {data : List UInt8}
    (hpos : ∀ chunk ∈ chunks, 1 ≤ chunk.2) (hdata : data.length ≤ (chunks.map Prod.snd).sum)
    {fuel : Nat} (hfuel : chunks.length < fuel) :
    dealData chunks data fuel 0 0 (chunks.map fun _ => []) = .ok (dealt chunks data) :=
  @dealData_dealt [] chunks [] data [] fuel hfuel hpos hdata rfl

end Pyrn.Server
