import Pyrn.Memory.HeapInvariant

/-!
# Full reclaim

When an application frees every pointer that it gets exactly once, and nothing else, the
allocator ends with the block list it started with, whatever the order of the calls.
-/

namespace Pyrn.Memory

open Tiling

/-- From the pointers `out` on, every `free` takes one that is still to be freed, and at the end
none is left. -/
def Settles : List Nat → List (Call × Option Nat) → Prop
  | out, [] => out = []
  | out, (.malloc _,reply) :: rest => Settles (reply.toList ++ out) rest
  | out, (.free p,_) :: rest => p ∈ out ∧ Settles (out.erase p) rest

instance decidableSettles : ∀ out exchanges, Decidable (Settles out exchanges)
  | out, [] => inferInstanceAs (Decidable (out = []))
  | out, (.malloc _,reply) :: rest => decidableSettles (reply.toList ++ out) rest
  | out, (.free p,_) :: rest =>
      have := decidableSettles (out.erase p) rest
      inferInstanceAs (Decidable (p ∈ out ∧ Settles (out.erase p) rest))

/-- The block list is one free block at the pool base. -/
structure SingleFreeBlock (h : Nat) (st : MyMemoryAllocator) : Prop where
  walk : Walk st.heap (some st.head) [st.memory]
  block : st.heap st.memory = {
    prev := none
    sz := st.memorySize - h
    data := st.memory + h
    status := .FREE
    next := none }

/-- The same blocks in the same order, each with the same header. -/
def SameBlockList (st st' : MyMemoryAllocator) : Prop :=
  ∃ blocks, Walk st.heap (some st.head) blocks ∧ Walk st'.heap (some st'.head) blocks ∧
    ∀ b ∈ blocks, st.heap b = st'.heap b

section

variable {h memory memorySize : Nat}

theorem taken_poolCall_malloc (segs : List Segment) (sz : UInt16) :
    (taken h memory (poolCall h memory segs (.malloc sz)).2).Perm
      ((poolCall h memory segs (.malloc sz)).1.toList ++ taken h memory segs) := by
  rw [poolCall]
  cases hc : carve h (uint16 (sz.toNat + sz.toNat % 4)) memory segs with
  | none => exact List.Perm.refl _
  | some found => exact taken_carve hc

/-- The pointers still to be freed are the payloads of the taken segments; a run that settles
them leaves none. -/
theorem taken_eq_nil_of_settles (hh : 0 < h) {calls : List Call} {segs : List Segment}
    {out : List Nat} (hout : (taken h memory segs).Perm out)
    (hsettles : Settles out (calls.zip (Transition.runTotal (poolCall h memory) segs calls).1)) :
    taken h memory (Transition.runTotal (poolCall h memory) segs calls).2 = [] := by
  induction calls generalizing segs out with
  | nil =>
    rw [Transition.runTotal,List.zip_nil_left,Settles] at hsettles
    rw [hsettles] at hout
    exact hout.eq_nil
  | cons call calls ih =>
    rw [Transition.runTotal,List.zip_cons_cons] at hsettles
    rw [Transition.runTotal]
    cases call with
    | malloc sz =>
      rw [Settles] at hsettles
      exact ih ((taken_poolCall_malloc segs sz).trans (hout.append_left _)) hsettles
    | free p =>
      rw [Settles] at hsettles
      have herase : (taken h memory (release h p memory segs)).Perm (out.erase p) := by
        rw [taken_release hh]
        exact hout.erase p
      exact ih herase hsettles.2

theorem Tiled.singleFreeBlock {st : MyMemoryAllocator} {segs : List Segment}
    (hst : Tiled h memory memorySize st segs) (hnone : taken h memory segs = []) :
    SingleFreeBlock h st := by
  obtain ⟨n,rfl⟩ := eq_singleton_of_taken_eq_nil hst.merged hst.nonempty hnone
  have hsize : n = memorySize - h := by
    have hextent := hst.extent_eq
    rw [extent_cons,extent_nil] at hextent
    dsimp only at hextent
    omega
  have hinv := heapInvariant_of_tiled hst
  refine ⟨?_,?_⟩
  · rw [hst.memory_eq]
    exact hinv.walk
  · rw [hst.memory_eq,hst.laid.1,hst.memorySize_eq,hsize]
    rfl

theorem SingleFreeBlock.sameBlockList {st st' : MyMemoryAllocator} (hst : SingleFreeBlock h st)
    (hst' : SingleFreeBlock h st') (hmemory : st.memory = st'.memory)
    (hsize : st.memorySize = st'.memorySize) : SameBlockList st st' := by
  refine ⟨[st.memory],hst.walk,?_,?_⟩
  · rw [hmemory]
    exact hst'.walk
  · intro b hb
    rw [List.mem_singleton.mp hb,hst.block]
    rw [hmemory,hsize,hst'.block]

end

/-- Every run of `malloc` and `free` returns; one that frees each pointer exactly once leaves a
single free block, as the constructor did. -/
theorem fullReclaim (h memory memorySize : Nat) (contents : Heap) (hh : 0 < h)
    (hle : h ≤ memorySize) (hsmall : memorySize ≤ 65535) (calls : List Call) :
    let start := MyMemoryAllocator.new h contents memory memorySize
    ∃ replies st, Transition.run (MyMemoryAllocator.call h) start calls = .ok (replies,st) ∧
      st.memory = memory ∧ st.memorySize = memorySize ∧
      (Settles [] (calls.zip replies) → SingleFreeBlock h st ∧ SameBlockList st start) := by
  intro start
  have hlt := Nat.lt_succ_of_le hsmall
  obtain ⟨st,hrun,hst⟩ := @run_refines_pool h memory memorySize contents hh hle hlt calls
  refine ⟨_,st,hrun,hst.memory_eq,hst.memorySize_eq,?_⟩
  intro hsettles
  have hnone : taken h memory [⟨memorySize - h,true⟩] = [] := rfl
  have hend := taken_eq_nil_of_settles hh (List.Perm.of_eq hnone) hsettles
  have hfinal := hst.singleFreeBlock hend
  have hstart : SingleFreeBlock h start := (tiled_new contents hh hle hlt).singleFreeBlock hnone
  exact ⟨hfinal,hfinal.sameBlockList hstart hst.memory_eq hst.memorySize_eq⟩

/-- Three blocks of a 200-byte pool, the middle one freed first; the freed room is used again. -/
theorem fullReclaim_three :
    let start := MyMemoryAllocator.new 20 (fun _ => ⟨none,0,0,.INUSE,none⟩) 4096 200
    let calls : List Call := [.malloc 8,.malloc 12,.malloc 16,.free 4144,.malloc 500,.free 4116,
      .malloc 4,.free 4176,.free 4116]
    ∃ replies st, Transition.run (MyMemoryAllocator.call 20) start calls = .ok (replies,st) ∧
      SingleFreeBlock 20 st ∧ SameBlockList st start := by
  intro start calls
  obtain ⟨replies,st,hrun,-,-,hsettled⟩ := fullReclaim 20 4096 200
    (fun _ => ⟨none,0,0,.INUSE,none⟩) (by decide) (by decide) (by decide) calls
  have hreplies : (Transition.run (MyMemoryAllocator.call 20) start calls).map Prod.fst =
      .ok [some 4116,some 4144,some 4176,none,none,none,some 4116,none,none] := by
    decide +kernel
  rw [hrun] at hreplies
  obtain rfl := Except.ok.inj hreplies
  exact ⟨_,st,hrun,hsettled (by decide)⟩

end Pyrn.Memory
