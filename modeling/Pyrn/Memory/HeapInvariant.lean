import Pyrn.Memory.AllocatorRefinement

/-!
# The heap invariant of the allocator

In every state that a run of `malloc` and `free` reaches, the block list is finite and its
blocks tile the pool; neighbours are linked both ways and never both free.
-/

namespace Pyrn.Memory

open Tiling

/-- The blocks met from a block on by following `next` to the end of the list. -/
inductive Walk (heap : Heap) : Option Nat → List Nat → Prop
  | stop : Walk heap none []
  | step {b : Nat} {blocks : List Nat} : Walk heap (heap b).next blocks →
      Walk heap (some b) (b :: blocks)

/-- What holds of a block `b` and the next block `c`. -/
structure Adjacent (heap : Heap) (b c : Nat) : Prop where
  contiguous : c = (heap b).data + (heap b).sz
  back : (heap c).prev = some b
  coalesced : ¬((heap b).status = .FREE ∧ (heap c).status = .FREE)

structure HeapInvariant (h : Nat) (st : MyMemoryAllocator) (blocks : List Nat) : Prop where
  walk : Walk st.heap (some st.head) blocks
  base : blocks.head? = some st.memory
  data_eq : ∀ b ∈ blocks, (st.heap b).data = b + h
  fills : (blocks.map fun b => (st.heap b).sz + h).sum = st.memorySize
  adjacent : blocks.IsChain (Adjacent st.heap)
  tiles : ∀ k, st.memory ≤ k ∧ k < st.memory + st.memorySize ↔
    ∃ b ∈ blocks, b ≤ k ∧ k < (st.heap b).data + (st.heap b).sz
  disjoint : ∀ b ∈ blocks, ∀ c ∈ blocks, b < c → (st.heap b).data + (st.heap b).sz ≤ c

/-- The addresses of the headers of a layout. -/
def blockStarts (h : Nat) : Nat → List Segment → List Nat
  | _, [] => []
  | a, s :: rest => a :: blockStarts h (a + h + s.size) rest

section

variable {h : Nat} {heap : Heap}

theorem walk_laid {prev : Option Nat} {a : Nat} {segs : List Segment}
    (hlaid : Laid h heap prev a segs none) :
    Walk heap (link none a segs) (blockStarts h a segs) := by
  induction segs generalizing prev a with
  | nil => exact Walk.stop
  | cons s rest ih =>
    apply Walk.step
    rw [hlaid.1]
    exact ih hlaid.2

/-- The header at each start, with the room it takes in the pool. -/
theorem block_laid {prev : Option Nat} {a : Nat} {segs : List Segment} {next : Option Nat}
    (hlaid : Laid h heap prev a segs next) :
    ∀ b ∈ blockStarts h a segs, a ≤ b ∧ (heap b).data = b + h ∧
      (heap b).data + (heap b).sz ≤ a + extent h segs := by
  induction segs generalizing prev a with
  | nil => simp [blockStarts]
  | cons s rest ih =>
    intro b hb
    rw [extent_cons]
    rcases List.mem_cons.mp hb with rfl | hb
    · rw [hlaid.1]
      exact ⟨Nat.le_refl b,rfl,by dsimp only; omega⟩
    · obtain ⟨hle,hdata,hend⟩ := ih hlaid.2 b hb
      exact ⟨by omega,hdata,by omega⟩

theorem fills_laid {prev : Option Nat} {a : Nat} {segs : List Segment} {next : Option Nat}
    (hlaid : Laid h heap prev a segs next) :
    ((blockStarts h a segs).map fun b => (heap b).sz + h).sum = extent h segs := by
  induction segs generalizing prev a with
  | nil => rfl
  | cons s rest ih =>
    rw [blockStarts,List.map_cons,List.sum_cons,ih hlaid.2,extent_cons,hlaid.1]

theorem adjacent_laid {prev : Option Nat} {a : Nat} {segs : List Segment} {next : Option Nat}
    (hlaid : Laid h heap prev a segs next) (hm : Merged segs) :
    (blockStarts h a segs).IsChain (Adjacent heap) := by
  induction segs generalizing prev a with
  | nil => exact List.IsChain.nil
  | cons s rest ih =>
    cases rest with
    | nil => exact List.IsChain.singleton a
    | cons t rest =>
      rw [merged_cons_cons] at hm
      have hrest := ih hlaid.2 hm.2
      rw [blockStarts,blockStarts,List.isChain_cons_cons]
      refine ⟨⟨?_,?_,?_⟩,hrest⟩
      · rw [hlaid.1]
      · rw [hlaid.2.1]
      · rw [hlaid.1,hlaid.2.1]
        simpa using hm.1

theorem tiles_laid {prev : Option Nat} {a k : Nat} {segs : List Segment} {next : Option Nat}
    (hlaid : Laid h heap prev a segs next) (hle : a ≤ k) (hlt : k < a + extent h segs) :
    ∃ b ∈ blockStarts h a segs, b ≤ k ∧ k < (heap b).data + (heap b).sz := by
  induction segs generalizing prev a with
  | nil => simp at hlt; omega
  | cons s rest ih =>
    rw [extent_cons] at hlt
    by_cases hk : k < a + h + s.size
    · refine ⟨a,List.mem_cons_self,hle,?_⟩
      rw [hlaid.1]
      exact hk
    · obtain ⟨b,hb,hcovers⟩ := ih hlaid.2 (by omega) (by omega)
      exact ⟨b,List.mem_cons_of_mem a hb,hcovers⟩

theorem disjoint_laid {prev : Option Nat} {a : Nat} {segs : List Segment} {next : Option Nat}
    (hlaid : Laid h heap prev a segs next) :
    ∀ b ∈ blockStarts h a segs, ∀ c ∈ blockStarts h a segs, b < c →
      (heap b).data + (heap b).sz ≤ c := by
  induction segs generalizing prev a with
  | nil => simp [blockStarts]
  | cons s rest ih =>
    intro b hb c hc hlt
    rcases List.mem_cons.mp hb with rfl | hb <;> rcases List.mem_cons.mp hc with rfl | hc
    · omega
    · rw [hlaid.1]
      exact (block_laid hlaid.2 c hc).1
    · have := (block_laid hlaid.2 b hb).1
      omega
    · exact ih hlaid.2 b hb c hc hlt

theorem heapInvariant_of_tiled {memory memorySize : Nat} {st : MyMemoryAllocator}
    {segs : List Segment} (hst : Tiled h memory memorySize st segs) :
    HeapInvariant h st (blockStarts h memory segs) where
  walk := by
    rw [hst.some_head]
    exact walk_laid hst.laid
  base := by
    rw [hst.memory_eq]
    obtain ⟨s,rest,rfl⟩ := List.exists_cons_of_ne_nil hst.nonempty
    rfl
  data_eq b hb := (block_laid hst.laid b hb).2.1
  fills := by rw [fills_laid hst.laid,hst.extent_eq,hst.memorySize_eq]
  adjacent := adjacent_laid hst.laid hst.merged
  tiles k := by
    rw [hst.memory_eq,hst.memorySize_eq,← hst.extent_eq]
    constructor
    · rintro ⟨hle,hlt⟩
      exact tiles_laid hst.laid hle hlt
    · rintro ⟨b,hb,hle,hlt⟩
      obtain ⟨hbase,-,hend⟩ := block_laid hst.laid b hb
      exact ⟨hbase.trans hle,hlt.trans_le hend⟩
  disjoint := disjoint_laid hst.laid

end

/-- Every run of `malloc` and `free`, with any sizes and any pointers, returns and leaves a
finite block list that tiles the pool. -/
theorem heapInvariant_reachable (h memory memorySize : Nat) (contents : Heap) (hh : 0 < h)
    (hle : h ≤ memorySize) (hsmall : memorySize ≤ 65535) (calls : List Call) :
    ∃ replies st blocks, Transition.run (MyMemoryAllocator.call h)
        (MyMemoryAllocator.new h contents memory memorySize) calls = .ok (replies,st) ∧
      st.memory = memory ∧ st.memorySize = memorySize ∧ HeapInvariant h st blocks := by
  obtain ⟨st,hrun,hst⟩ := run_refines_pool contents hh hle
    (Nat.lt_succ_of_le hsmall) calls
  exact ⟨_,st,_,hrun,hst.memory_eq,hst.memorySize_eq,heapInvariant_of_tiled hst⟩

/-- A 100-byte pool: two blocks, a double free, a stray free and a request that does not fit. -/
theorem heapInvariant_reachable_hundred :
    ∃ replies st blocks, Transition.run (MyMemoryAllocator.call 20)
        (MyMemoryAllocator.new 20 (fun _ => ⟨none,0,0,.INUSE,none⟩) 4096 100)
        [.malloc 10,.malloc 5,.free 4116,.free 4116,.free 7,.malloc 65535] = .ok (replies,st) ∧
      st.memory = 4096 ∧ st.memorySize = 100 ∧ HeapInvariant 20 st blocks :=
  heapInvariant_reachable 20 4096 100 _ (by decide) (by decide) (by decide) _

end Pyrn.Memory
