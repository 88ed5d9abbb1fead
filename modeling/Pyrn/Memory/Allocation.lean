import Pyrn.Memory.HeapInvariant

/-!
# What an allocation gives

A pointer that `malloc` returns leads to a block that was free and overlaps nothing in use. The
block is large enough and aligned as long as the rounding of the requests does its work: it
leaves odd sizes unaligned, and it wraps at the top of the 16-bit range.
-/

namespace Pyrn.Memory

open Tiling

/-- The size that `malloc` looks for. -/
def alignedSize (sz : UInt16) : Nat := uint16 (sz.toNat + sz.toNat % 4)

/-- No free block has room for the request and a header. -/
def Refuses (h : Nat) (st : MyMemoryAllocator) (sz : UInt16) : Prop :=
  ∀ blocks, Walk st.heap (some st.head) blocks → ∀ b ∈ blocks,
    ¬((st.heap b).status = .FREE ∧ (st.heap b).sz > alignedSize sz + h)

/-- The pointer `p` leads to the block `b`, which was free and is apart from all that is in use;
the blocks in use stay where they are. -/
structure Placed (h : Nat) (st st' : MyMemoryAllocator) (blocks blocks' : List Nat) (b p : Nat) :
    Prop where
  mem : b ∈ blocks
  mem' : b ∈ blocks'
  data_eq : (st'.heap b).data = p
  wasFree : (st.heap b).status = .FREE
  inUse : (st'.heap b).status = .INUSE
  offHeaders : ∀ c ∈ blocks', ∀ k, p ≤ k ∧ k < p + (st'.heap b).sz → ¬(c ≤ k ∧ k < c + h)
  offBlocks : ∀ c ∈ blocks', c ≠ b → (st'.heap c).status = .INUSE →
    ∀ k, p ≤ k ∧ k < p + (st'.heap b).sz →
      ¬((st'.heap c).data ≤ k ∧ k < (st'.heap c).data + (st'.heap c).sz)
  others : ∀ c ∈ blocks, (st.heap c).status = .INUSE → c ∈ blocks' ∧
    (st'.heap c).status = .INUSE ∧ (st'.heap c).data = (st.heap c).data ∧
      (st'.heap c).sz = (st.heap c).sz

/-- A refused request changes no block; an accepted one yields an aligned pointer to a block
that is large enough. -/
def MallocPost (h : Nat) (st : MyMemoryAllocator) (sz : UInt16) (reply : Option Nat)
    (st' : MyMemoryAllocator) : Prop :=
  ∃ blocks blocks', Walk st.heap (some st.head) blocks ∧ Walk st'.heap (some st'.head) blocks' ∧
    match reply with
    | none => blocks' = blocks ∧ ∀ b ∈ blocks, st'.heap b = st.heap b
    | some p => ∃ b, Placed h st st' blocks blocks' b p ∧ p % 4 = 0 ∧ sz.toNat ≤ (st'.heap b).sz

/-- A `malloc` that is refused, or that asks for an even size. -/
def EvenOrRefused (h : Nat) (st : MyMemoryAllocator) : Call → Prop
  | .malloc sz => sz.toNat % 2 = 0 ∨ Refuses h st sz
  | .free _ => True

section

variable {h memory memorySize : Nat}

theorem le_alignedSize_iff {sz : UInt16} : sz.toNat ≤ alignedSize sz ↔ sz.toNat < 65534 := by
  have hlt := sz.toNat_lt
  rw [alignedSize,uint16]
  omega

theorem four_dvd_alignedSize {sz : UInt16} (heven : sz.toNat % 2 = 0) : 4 ∣ alignedSize sz := by
  have hlt := sz.toNat_lt
  rw [alignedSize,uint16]
  omega

theorem blockStarts_append (a : Nat) (l r : List Segment) :
    blockStarts h a (l ++ r) = blockStarts h a l ++ blockStarts h (a + extent h l) r := by
  induction l generalizing a with
  | nil => rfl
  | cons s rest ih =>
    have hend : a + extent h (s :: rest) = a + h + s.size + extent h rest := by
      rw [extent_cons]
      omega
    rw [List.cons_append,blockStarts,blockStarts,ih,hend,List.cons_append]

/-- The same segments at the same place have the same headers up to the links. -/
theorem laid_agree {heap heap' : Heap} {prev prev' next next' : Option Nat} {a : Nat}
    {segs : List Segment} (hlaid : Laid h heap prev a segs next)
    (hlaid' : Laid h heap' prev' a segs next') : ∀ b ∈ blockStarts h a segs,
      (heap' b).status = (heap b).status ∧ (heap' b).data = (heap b).data ∧
        (heap' b).sz = (heap b).sz := by
  induction segs generalizing prev prev' a with
  | nil =>
    intro b hb
    cases hb
  | cons s rest ih =>
    intro b hb
    rcases List.mem_cons.mp hb with rfl | hb
    · rw [hlaid.1,hlaid'.1]
      exact ⟨rfl,rfl,rfl⟩
    · exact ih hlaid.2 hlaid'.2 b hb

theorem laid_unique {heap heap' : Heap} {prev next : Option Nat} {a : Nat} {segs : List Segment}
    (hlaid : Laid h heap prev a segs next) (hlaid' : Laid h heap' prev a segs next) :
    ∀ b ∈ blockStarts h a segs, heap' b = heap b := by
  induction segs generalizing prev a with
  | nil =>
    intro b hb
    cases hb
  | cons s rest ih =>
    intro b hb
    rcases List.mem_cons.mp hb with rfl | hb
    · rw [hlaid.1,hlaid'.1]
    · exact ih hlaid.2 hlaid'.2 b hb

theorem walk_unique {heap : Heap} {start : Option Nat} {blocks blocks' : List Nat}
    (hwalk : Walk heap start blocks) (hwalk' : Walk heap start blocks') : blocks = blocks' := by
  induction hwalk generalizing blocks' with
  | stop =>
    cases hwalk'
    rfl
  | step _ ih =>
    cases hwalk' with
    | step hrest => rw [ih hrest]

/-- The free segments that carving looks for are the free blocks that `malloc` looks for. -/
theorem forall_block_iff {heap : Heap} {prev next : Option Nat} {a n : Nat}
    {segs : List Segment} (hlaid : Laid h heap prev a segs next) :
    (∀ b ∈ blockStarts h a segs, ¬((heap b).status = .FREE ∧ (heap b).sz > n + h)) ↔
      ∀ s ∈ segs, ¬(s.free = true ∧ n + h < s.size) := by
  induction segs generalizing prev a with
  | nil => simp [blockStarts]
  | cons s rest ih =>
    rw [blockStarts,List.forall_mem_cons,List.forall_mem_cons,ih hlaid.2,hlaid.1]
    simp only [statusOf_eq_free,gt_iff_lt]

theorem Tiled.refuses_iff {st : MyMemoryAllocator} {segs : List Segment}
    (hst : Tiled h memory memorySize st segs) (sz : UInt16) :
    Refuses h st sz ↔ carve h (alignedSize sz) memory segs = none := by
  have hwalk := (heapInvariant_of_tiled hst).walk
  rw [carve_eq_none_iff,← forall_block_iff hst.laid]
  constructor
  · intro hrefuses
    exact hrefuses _ hwalk
  · intro hnone blocks hblocks
    rw [walk_unique hblocks hwalk]
    exact hnone

/-- The block that carving makes is placed well, whatever the request. -/
theorem placed_of_carve {st st' : MyMemoryAllocator} {segs segs' : List Segment} {n b : Nat}
    (hst : Tiled h memory memorySize st segs) (hst' : Tiled h memory memorySize st' segs')
    (hc : carve h n memory segs = some (b,segs')) :
    Placed h st st' (blockStarts h memory segs) (blockStarts h memory segs') b (b + h) ∧
      (st'.heap b).sz = n := by
  obtain ⟨l,s,r,rfl,hfree,hsize,rfl,rfl⟩ := exists_split_of_carve hc
  have hinv' := heapInvariant_of_tiled hst'
  obtain ⟨hfront,hblock,hback⟩ := laid_append.mp hst.laid
  obtain ⟨hfront',hblock',hrest',hback'⟩ := laid_append.mp hst'.laid
  have hend : memory + extent h l + h + n + h + (s.size - (h + n)) =
      memory + extent h l + h + s.size := by omega
  rw [hend] at hback'
  have hmem' : memory + extent h l ∈ blockStarts h memory
      (l ++ ⟨n,false⟩ :: ⟨s.size - (h + n),true⟩ :: r) := by
    rw [blockStarts_append]
    exact List.mem_append_right _ List.mem_cons_self
  have hdata' : (st'.heap (memory + extent h l)).data = memory + extent h l + h := by
    rw [hblock']
  -- a block of the new list is the carved one, ends in front of it or starts behind it
  have hside : ∀ c ∈ blockStarts h memory (l ++ ⟨n,false⟩ :: ⟨s.size - (h + n),true⟩ :: r),
      c ≠ memory + extent h l → (st'.heap c).data + (st'.heap c).sz ≤ memory + extent h l ∨
        (st'.heap (memory + extent h l)).data + (st'.heap (memory + extent h l)).sz ≤ c := by
    intro c hc hne
    rcases Nat.lt_or_gt_of_ne hne with hlt | hgt
    · exact Or.inl (hinv'.disjoint c hc _ hmem' hlt)
    · exact Or.inr (hinv'.disjoint _ hmem' c hc hgt)
  refine ⟨⟨?_,hmem',hdata',?_,?_,?_,?_,?_⟩,by rw [hblock']⟩
  · rw [blockStarts_append]
    exact List.mem_append_right _ List.mem_cons_self
  · rw [hblock]
    exact statusOf_eq_free.mpr hfree
  · rw [hblock']
    rfl
  · intro c hc k hk hcovers
    have hdata := hinv'.data_eq c hc
    by_cases hne : c = memory + extent h l
    · omega
    · rcases hside c hc hne with hle | hle <;> omega
  · intro c hc hne _ k hk hcovers
    have hdata := hinv'.data_eq c hc
    rcases hside c hc hne with hle | hle <;> omega
  · intro c hc huse
    rw [blockStarts_append] at hc
    rw [blockStarts_append]
    rcases List.mem_append.mp hc with hc | hc
    · obtain ⟨hstatus,hdata,hsz⟩ := laid_agree hfront hfront' c hc
      exact ⟨List.mem_append_left _ hc,hstatus.trans huse,hdata,hsz⟩
    · rcases List.mem_cons.mp hc with rfl | hc
      · rw [hblock] at huse
        rw [statusOf_eq_free.mpr hfree] at huse
        cases huse
      · obtain ⟨hstatus,hdata,hsz⟩ := laid_agree hback hback' c hc
        refine ⟨List.mem_append_right _ ?_,hstatus.trans huse,hdata,hsz⟩
        rw [blockStarts,blockStarts,hend]
        exact List.mem_cons_of_mem _ (List.mem_cons_of_mem _ hc)

/-- `malloc` refuses, or carves a block. -/
theorem malloc_cases (hh : 0 < h) {st : MyMemoryAllocator} {segs : List Segment}
    (hst : Tiled h memory memorySize st segs) (sz : UInt16) :
    ∃ reply st', st.malloc h sz = .ok (reply,st') ∧
      ((carve h (alignedSize sz) memory segs = none ∧ reply = none ∧
          Tiled h memory memorySize st' segs) ∨
        ∃ b segs', carve h (alignedSize sz) memory segs = some (b,segs') ∧
          reply = some (b + h) ∧ Tiled h memory memorySize st' segs') := by
  obtain ⟨st',hmalloc,hst'⟩ := malloc_refines hh hst sz
  refine ⟨_,st',hmalloc,?_⟩
  cases hc : carve h (alignedSize sz) memory segs with
  | none =>
    have hpool : poolCall h memory segs (.malloc sz) = (none,segs) := by
      rw [poolCall,← alignedSize,hc]
    rw [hpool] at hst' ⊢
    exact Or.inl ⟨rfl,rfl,hst'⟩
  | some found =>
    have hpool : poolCall h memory segs (.malloc sz) = (some (found.1 + h),found.2) := by
      rw [poolCall,← alignedSize,hc]
    rw [hpool] at hst' ⊢
    exact Or.inr ⟨found.1,found.2,rfl,rfl,hst'⟩

/-- In an aligned heap `malloc` keeps its promise exactly when the rounded size has not wrapped
or the request is refused. -/
theorem malloc_of_aligned (hh : 0 < h) (hheader : 4 ∣ h) {st : MyMemoryAllocator}
    {segs : List Segment} (hst : Tiled h memory memorySize st segs)
    (haligned : Aligned 4 h memory segs) (sz : UInt16) :
    ∃ reply st', st.malloc h sz = .ok (reply,st') ∧
      (MallocPost h st sz reply st' ↔ sz.toNat < 65534 ∨ Refuses h st sz) := by
  obtain ⟨reply,st',hmalloc,hcases⟩ := malloc_cases hh hst sz
  refine ⟨reply,st',hmalloc,?_⟩
  have hwalk := (heapInvariant_of_tiled hst).walk
  rw [hst.refuses_iff]
  rcases hcases with ⟨hnone,rfl,hst'⟩ | ⟨b,segs',hc,rfl,hst'⟩
  · have hwalk' := (heapInvariant_of_tiled hst').walk
    refine iff_of_true ⟨_,_,hwalk,hwalk',rfl,?_⟩ (Or.inr hnone)
    exact laid_unique hst.laid hst'.laid
  · have hwalk' := (heapInvariant_of_tiled hst').walk
    obtain ⟨hplaced,hsz⟩ := placed_of_carve hst hst' hc
    have hbase : 4 ∣ b + h := Nat.dvd_add (dvd_of_carve haligned hc) hheader
    rw [hc,or_iff_left (by simp),← le_alignedSize_iff]
    constructor
    · rintro ⟨blocks,blocks',hblocks,hblocks',c,hc,-,hle⟩
      have hdata := (heapInvariant_of_tiled hst').data_eq c
        (by rw [← walk_unique hblocks' hwalk']; exact hc.mem')
      have hcb : c = b := by
        have := hc.data_eq
        omega
      rw [hcb,hsz] at hle
      exact hle
    · intro hle
      rw [← hsz] at hle
      exact ⟨_,_,hwalk,hwalk',b,hplaced,Nat.mod_eq_zero_of_dvd hbase,hle⟩

/-- A call whose request is even or refused keeps the alignment. -/
theorem call_keeps_alignment (hh : 0 < h) (hheader : 4 ∣ h) {st : MyMemoryAllocator}
    {segs : List Segment} (hst : Tiled h memory memorySize st segs)
    (haligned : Aligned 4 h memory segs) (call : Call) (hok : EvenOrRefused h st call) :
    ∃ reply st', st.call h call = .ok (reply,st') ∧
      ∃ segs', Tiled h memory memorySize st' segs' ∧ Aligned 4 h memory segs' := by
  cases call with
  | malloc sz =>
    obtain ⟨reply,st',hmalloc,hcases⟩ := malloc_cases hh hst sz
    refine ⟨reply,st',hmalloc,?_⟩
    rcases hcases with ⟨-,-,hst'⟩ | ⟨b,segs',hc,-,hst'⟩
    · exact ⟨segs,hst',haligned⟩
    · have hsome : ¬Refuses h st sz := by
        rw [hst.refuses_iff,hc]
        simp
      have heven : sz.toNat % 2 = 0 := hok.resolve_right hsome
      exact ⟨segs',hst',aligned_carve hheader (four_dvd_alignedSize heven) haligned hc⟩
  | free p =>
    obtain ⟨st',hcall,hst'⟩ := call_refines hh hst (.free p)
    exact ⟨_,st',hcall,_,hst',aligned_release haligned⟩

end

/-- After every run in which each request that got a block asked for an even size, the next
`malloc` keeps its promise exactly when its rounded size has not wrapped or it is refused. -/
theorem malloc_exact (h memory memorySize : Nat) (contents : Heap) (hh : 0 < h)
    (hle : h ≤ memorySize) (hsmall : memorySize ≤ 65535) (hbase : 4 ∣ memory) (hheader : 4 ∣ h)
    (calls : List Call) :
    let start := MyMemoryAllocator.new h contents memory memorySize
    Transition.Meets (MyMemoryAllocator.call h) (EvenOrRefused h) start calls →
      ∃ replies st, Transition.run (MyMemoryAllocator.call h) start calls = .ok (replies,st) ∧
        ∀ sz, ∃ reply st', st.malloc h sz = .ok (reply,st') ∧
          (MallocPost h st sz reply st' ↔ sz.toNat < 65534 ∨ Refuses h st sz) := by
  intro start hmeets
  have hstep (st : MyMemoryAllocator) (call : Call)
      (hst : ∃ segs, Tiled h memory memorySize st segs ∧ Aligned 4 h memory segs)
      (hok : EvenOrRefused h st call) : ∃ reply st', st.call h call = pure (reply,st') ∧
        ∃ segs, Tiled h memory memorySize st' segs ∧ Aligned 4 h memory segs := by
    obtain ⟨segs,htiled,haligned⟩ := hst
    exact call_keeps_alignment hh hheader htiled haligned call hok
  have hstart : Tiled h memory memorySize start [⟨memorySize - h,true⟩] :=
    tiled_new contents hh hle (Nat.lt_succ_of_le hsmall)
  obtain ⟨replies,st,hrun,segs,hst,haligned⟩ := Transition.run_keeps hstep calls start
    ⟨_,hstart,hbase,trivial⟩ hmeets
  exact ⟨replies,st,hrun,malloc_of_aligned hh hheader hst haligned⟩

/-- Even requests in a 200-byte pool, one of them refused, and a free in between. -/
theorem malloc_exact_even :
    let start := MyMemoryAllocator.new 20 (fun _ => ⟨none,0,0,.INUSE,none⟩) 4096 200
    let calls : List Call := [.malloc 8,.malloc 6,.free 4116,.malloc 60000]
    ∃ replies st, Transition.run (MyMemoryAllocator.call 20) start calls = .ok (replies,st) ∧
      ∃ reply st', st.malloc 20 7 = .ok (reply,st') ∧ MallocPost 20 st 7 reply st' := by
  intro start calls
  have hmeets : Transition.Meets (MyMemoryAllocator.call 20) (EvenOrRefused 20) start calls :=
    ⟨Or.inl (by decide),fun _ _ _ => ⟨Or.inl (by decide),fun _ _ _ => ⟨trivial,fun _ _ _ =>
      ⟨Or.inl (by decide),fun _ _ _ => trivial⟩⟩⟩⟩
  obtain ⟨replies,st,hrun,hpost⟩ := malloc_exact 20 4096 200 _ (by decide) (by decide)
    (by decide) (by decide) (by decide) calls hmeets
  obtain ⟨reply,st',hmalloc,hiff⟩ := hpost 7
  exact ⟨replies,st,hrun,reply,st',hmalloc,hiff.mpr (Or.inl (by decide))⟩

/-- An odd request unaligns the next block; a request of 65534 bytes yields none at all. -/
theorem malloc_unaligned :
    let start := MyMemoryAllocator.new 20 (fun _ => ⟨none,0,0,.INUSE,none⟩) 4096 200
    (∃ st st', Transition.run (MyMemoryAllocator.call 20) start [.malloc 1] =
        .ok ([some 4116],st) ∧
      st.malloc 20 4 = .ok (some 4138,st') ∧ ¬MallocPost 20 st 4 (some 4138) st') ∧
    ∃ st', start.malloc 20 65534 = .ok (some 4116,st') ∧
      ¬MallocPost 20 start 65534 (some 4116) st' := by
  intro start
  have hstart : Tiled 20 4096 200 start [⟨180,true⟩] :=
    tiled_new _ (by decide) (by decide) (by decide)
  obtain ⟨st,hcall,hst⟩ := call_refines (by decide) hstart (.malloc 1)
  obtain ⟨st',hcall',-⟩ := call_refines (by decide) hst (.malloc 4)
  obtain ⟨st'',hwrapped,-⟩ := malloc_refines (by decide) hstart 65534
  obtain ⟨reply,after,hmalloc,hiff⟩ := malloc_of_aligned (by decide) (by decide) hstart
    ⟨by decide,trivial⟩ 65534
  refine ⟨⟨st,st',?_,hcall',?_⟩,st'',hwrapped,?_⟩
  · rw [Transition.run,hcall]
    rfl
  · rintro ⟨_,_,-,-,_,-,haligned,-⟩
    exact absurd haligned (by decide)
  · rw [hmalloc] at hwrapped
    obtain ⟨rfl,rfl⟩ := Prod.mk.inj (Except.ok.inj hwrapped)
    intro hpost
    rcases hiff.mp hpost with hlt | hrefuses
    · exact absurd hlt (by decide)
    · rw [hstart.refuses_iff] at hrefuses
      exact absurd hrefuses (by decide)

end Pyrn.Memory
