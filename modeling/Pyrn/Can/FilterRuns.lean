import Mathlib.Data.List.Perm.Subperm
import Pyrn.Can.FilterReenable

/-!
# Runs of the acceptance filter

The table is in order, and every requested identifier can be disabled and requested again, after
every call of a run exactly when every call and every repeated request finds a table that it can
serve.
-/

namespace Pyrn.Can

open HalfWords AcceptanceFilter

/-- What the filter must be after the calls that it has served. -/
structure InOrder (st : AcceptanceFilter) (calls : List FilterCall) : Prop where
  table : TableOf st.region calls
  restores : ∀ call ∈ calls,Restores st call

/-- What a repeated request must find. -/
def Refits (st : AcceptanceFilter) (call : FilterCall) : Prop :=
  match call.bus with
  | .can1 => RefitsFirst st call.entry
  | .can2 => RefitsSecond st call

instance (st : AcceptanceFilter) : ∀ call,Decidable (Refits st call)
  | ⟨.can1,id⟩ => inferInstanceAs (Decidable (RefitsFirst st (FilterCall.mk .can1 id).entry))
  | ⟨.can2,id⟩ => inferInstanceAs (Decidable (RefitsSecond st ⟨.can2,id⟩))

section Runs

variable {st : AcceptanceFilter} {ids : List Half} {calls : List FilterCall}

theorem Requested.length_le (hids : Requested ids calls) : ids.length ≤ calls.length := by
  have hsub : ids ⊆ calls.map FilterCall.entry := by
    intro e he
    obtain ⟨call,hcall,rfl⟩ := (hids.mem e).mp he
    exact List.mem_map_of_mem hcall
  have hnodup : ids.Nodup := hids.sorted.imp ne_of_lt
  have hlength := (List.subperm_of_subset hnodup hsub).length_le
  rwa [List.length_map] at hlength

/-- With fewer calls than the memory has entries there is room. -/
theorem HoldsTable.count_lt (hholds : HoldsTable st ids) (hids : Requested ids calls)
    (hroom : calls.length < 1022) : st.canAccfCount < 1022 := by
  have hcount := hholds.count
  have hlength := hids.length_le
  omega

theorem restores_iff (hids : Requested ids calls) (hholds : HoldsTable st ids)
    (hroom : calls.length < 1022) {call : FilterCall} (hcall : call ∈ calls) :
    Restores st call ↔ Refits st call := by
  obtain ⟨A,B,rfl⟩ := List.append_of_mem ((hids.mem _).mpr ⟨call,hcall,rfl⟩)
  have hcount := hholds.count_lt hids hroom
  cases hbus : call.bus with
  | can1 =>
    have hplain : call.plain = call.entry := by rw [FilterCall.entry,hbus,FilterCall.plain]
    rw [Refits,hbus]
    exact restores_iff_first hids hholds hplain hcount
  | can2 =>
    rw [Refits,hbus]
    exact restores_iff_second hids hholds hbus hcount

theorem requested_nil : Requested [] [] := by
  refine ⟨List.Pairwise.nil,fun e => iff_of_false List.not_mem_nil ?_⟩
  rintro ⟨call,hcall,-⟩
  exact List.not_mem_nil hcall

theorem holds_initial (ram : Nat → Word) : HoldsTable (initial ram) [] :=
  ⟨.inl rfl,rfl,rfl,fun h => absurd rfl h⟩

/-- The table is in order all along a run exactly when every call fits. -/
theorem tables_iff (ram : Nat → Word) (calls : List FilterCall) (hroom : calls.length < 1022) :
    ((∀ before,before <+: calls →
        TableOf (before.foldl setFilter (initial ram)).region before) ↔
      Transition.Along setFilter Fits (initial ram) calls) ∧
    ((∀ before,before <+: calls →
        TableOf (before.foldl setFilter (initial ram)).region before) →
      ∃ ids,Requested ids calls ∧ HoldsTable (calls.foldl setFilter (initial ram)) ids) := by
  apply Transition.prefixes_iff_along
    (P := fun before => TableOf (before.foldl setFilter (initial ram)).region before)
    (J := fun before => ∃ ids,Requested ids before ∧
      HoldsTable (before.foldl setFilter (initial ram)) ids)
  · exact tableOf_of_holds (holds_initial ram) requested_nil
  · exact ⟨[],requested_nil,holds_initial ram⟩
  · rintro before call hbefore ⟨ids,hids,hholds⟩ -
    have hlength := hbefore.length_le
    rw [List.length_append] at hlength
    have hcount := hholds.count_lt hids (by omega)
    obtain ⟨hiff,hnext⟩ := @stepIs_fits _ ids before call hids hholds hcount
    rw [List.foldl_append]
    exact ⟨hiff,fun htable => hnext (hiff.mp htable)⟩

/-- The filter is in order after every call of a run exactly when every call fits, and every
request of a call before fits again. -/
theorem filter_inOrder_iff (ram : Nat → Word) (calls : List FilterCall)
    (hroom : calls.length < 1022) :
    (∀ before,before <+: calls → InOrder (before.foldl setFilter (initial ram)) before) ↔
      Transition.Along setFilter Fits (initial ram) calls ∧
        ∀ before,before <+: calls → ∀ call ∈ before,
          Refits (before.foldl setFilter (initial ram)) call := by
  have hrestores {before : List FilterCall} (hbefore : before <+: calls)
      (htables : ∀ front,front <+: calls →
        TableOf (front.foldl setFilter (initial ram)).region front)
      {call : FilterCall} (hcall : call ∈ before) :
      Restores (before.foldl setFilter (initial ram)) call ↔
        Refits (before.foldl setFilter (initial ram)) call := by
    have hlength : before.length < 1022 := lt_of_le_of_lt hbefore.length_le hroom
    obtain ⟨ids,hids,hholds⟩ := (tables_iff ram before hlength).2
      fun front hfront => htables front (hfront.trans hbefore)
    exact restores_iff hids hholds hlength hcall
  constructor
  · intro hall
    have htables := fun before hbefore => (hall before hbefore).table
    refine ⟨(tables_iff ram calls hroom).1.mp htables,fun before hbefore call hcall => ?_⟩
    exact (hrestores hbefore htables hcall).mp ((hall before hbefore).restores call hcall)
  · rintro ⟨hfits,hrefits⟩ before hbefore
    have htables := (tables_iff ram calls hroom).1.mpr hfits
    refine ⟨htables before hbefore,fun call hcall => ?_⟩
    exact (hrestores hbefore htables hcall).mpr (hrefits before hbefore call hcall)

end Runs

/-- Ascending requests on the second bus, in a memory of ones, keep the filter in order. -/
theorem filter_inOrder_ascending :
    InOrder (([⟨.can2,0x100⟩,⟨.can2,0x200⟩,⟨.can2,0x300⟩] : List FilterCall).foldl setFilter
      (initial fun _ => padWord)) [⟨.can2,0x100⟩,⟨.can2,0x200⟩,⟨.can2,0x300⟩] := by
  have hfits : Transition.Along setFilter Fits (initial fun _ => padWord)
      [⟨.can2,0x100⟩,⟨.can2,0x200⟩,⟨.can2,0x300⟩] :=
    ⟨by decide +kernel,by decide +kernel,by decide +kernel,trivial⟩
  have hinits : ∀ before ∈
      List.inits ([⟨.can2,0x100⟩,⟨.can2,0x200⟩,⟨.can2,0x300⟩] : List FilterCall),
      ∀ call ∈ before,Refits (before.foldl setFilter (initial fun _ => padWord)) call := by
    decide +kernel
  have hall := (filter_inOrder_iff (fun _ => padWord) [⟨.can2,0x100⟩,⟨.can2,0x200⟩,⟨.can2,0x300⟩]
    (by decide)).mpr
      ⟨hfits,fun before hbefore => hinits before ((List.mem_inits _ _).mpr hbefore)⟩
  exact hall [⟨.can2,0x100⟩,⟨.can2,0x200⟩,⟨.can2,0x300⟩] List.prefix_rfl

/-- The third request drops the largest identifier. -/
theorem filter_dropsLargest :
    ¬InOrder (([⟨.can1,0x100⟩,⟨.can1,0x200⟩,⟨.can1,0x080⟩] : List FilterCall).foldl setFilter
      (initial fun _ => padWord)) [⟨.can1,0x100⟩,⟨.can1,0x200⟩,⟨.can1,0x080⟩] := by
  intro hinOrder
  have hregion : (([⟨.can1,0x100⟩,⟨.can1,0x200⟩,⟨.can1,0x080⟩] : List FilterCall).foldl setFilter
      (initial fun _ => padWord)).region = [0x080,0x100,0xFFFF,0xFFFF] := by
    decide +kernel
  have hlost := (hinOrder.table.exact 0x200).mpr ⟨⟨.can1,0x200⟩,by simp,rfl⟩
  rw [hregion] at hlost
  exact absurd hlost (by decide)

end Pyrn.Can
