import Pyrn.Framework.Run
import Pyrn.Memory.HeapLayout

/-!
# The allocator refines carving and releasing

A call of `malloc` or `free` walks and rewrites the block list; on the tiling that the list
describes it carves the first free block that is large enough, or releases one block and joins
it with its free neighbours. No walk runs out of budget and `PrintResume` never resets the board.
-/

namespace Pyrn.Memory

open Tiling

section

variable {h : Nat}

theorem sumFrom_laid {heap : Heap} {prev : Option Nat} {a fuel : Nat}
    {segs : List Segment} (sum : Nat) (hlaid : Laid h heap prev a segs none)
    (hsmall : sum + extent h segs < 2 ^ 16) (hfuel : segs.length < fuel) :
    MyMemoryAllocator.sumFrom h heap fuel (link none a segs) sum = .ok (sum + extent h segs) := by
  induction segs generalizing prev a fuel sum with
  | nil =>
    obtain ⟨fuel,rfl⟩ := Nat.exists_eq_add_of_lt hfuel
    simp [MyMemoryAllocator.sumFrom,link]
  | cons s rest ih =>
    obtain ⟨fuel,rfl⟩ : ∃ n, fuel = n + 1 := ⟨fuel - 1,by omega⟩
    rw [extent_cons] at hsmall ⊢
    rw [List.length_cons] at hfuel
    have hsum : uint16 (sum + (s.size + h)) = sum + (s.size + h) := Nat.mod_eq_of_lt (by omega)
    rw [link,MyMemoryAllocator.sumFrom,hlaid.1]
    simp only
    rw [hsum,ih (sum + (s.size + h)) hlaid.2 (by omega) (by omega)]
    congr 1
    omega

theorem printResume_laid (hh : 0 < h) {st : MyMemoryAllocator} {segs : List Segment}
    (hlaid : Laid h st.heap none st.head segs none) (hne : segs ≠ [])
    (hextent : extent h segs = st.memorySize) (hsmall : st.memorySize < 2 ^ 16) :
    MyMemoryAllocator.printResume h st = .ok () := by
  have hlength := length_le_extent hh segs
  have hfuel : segs.length < st.walkFuel := by
    rw [MyMemoryAllocator.walkFuel]
    omega
  have hsum := sumFrom_laid 0 hlaid (by omega) hfuel
  rw [link_of_ne_nil hne,hextent,Nat.zero_add] at hsum
  rw [MyMemoryAllocator.printResume,hsum]
  change (if st.memorySize > st.memorySize then throw Halt.systemReset else pure ()) = _
  rw [if_neg (Nat.lt_irrefl _)]
  rfl

theorem mallocFrom_none {heap : Heap} {prev : Option Nat} {a n fuel : Nat}
    {segs : List Segment} (hlaid : Laid h heap prev a segs none) (hfuel : segs.length < fuel)
    (hc : carve h n a segs = none) :
    MyMemoryAllocator.mallocFrom h heap n fuel (link none a segs) = .ok (none,heap) := by
  induction segs generalizing prev a fuel with
  | nil =>
    obtain ⟨fuel,rfl⟩ : ∃ m, fuel = m + 1 := ⟨fuel - 1,by omega⟩
    rfl
  | cons s rest ih =>
    rw [List.length_cons] at hfuel
    obtain ⟨fuel,rfl⟩ : ∃ m, fuel = m + 1 := ⟨fuel - 1,by omega⟩
    by_cases hfit : s.free = true ∧ n + h < s.size
    · rw [carve,if_pos hfit] at hc
      exact absurd hc (by simp)
    · rw [carve,if_neg hfit,Option.map_eq_none_iff] at hc
      rw [link,MyMemoryAllocator.mallocFrom,hlaid.1]
      simp only [statusOf_eq_free,gt_iff_lt]
      rw [if_neg hfit]
      exact ih hlaid.2 (by omega) hc

theorem carve_ne_nil {n a b : Nat} {segs segs' : List Segment}
    (hc : carve h n a segs = some (b,segs')) : segs ≠ [] ∧ segs' ≠ [] := by
  cases segs with
  | nil => simp [carve] at hc
  | cons s rest =>
    obtain ⟨t,rest',rfl,-⟩ := carve_head hc
    exact ⟨by simp,by simp⟩

theorem mallocFrom_some (hh : 0 < h) {heap : Heap} {prev : Option Nat} {a b n fuel : Nat}
    {segs segs' : List Segment} (hlaid : Laid h heap prev a segs none)
    (hsmall : extent h segs < 2 ^ 16) (hfuel : segs.length < fuel)
    (hc : carve h n a segs = some (b,segs')) :
    ∃ heap', MyMemoryAllocator.mallocFrom h heap n fuel (link none a segs) =
        .ok (some (b + h),heap') ∧
      Laid h heap' prev a segs' none ∧ ∀ k, k < a → heap' k = heap k := by
  induction segs generalizing prev a fuel segs' with
  | nil => simp [carve] at hc
  | cons s rest ih =>
    rw [List.length_cons] at hfuel
    rw [extent_cons] at hsmall
    obtain ⟨fuel,rfl⟩ : ∃ m, fuel = m + 1 := ⟨fuel - 1,by omega⟩
    rw [link,MyMemoryAllocator.mallocFrom]
    by_cases hfit : s.free = true ∧ n + h < s.size
    · rw [carve,if_pos hfit] at hc
      obtain ⟨rfl,rfl⟩ := Prod.mk.inj (Option.some.inj hc)
      obtain ⟨hfragment,hframe⟩ := fragment_laid hh hlaid hfit.2 (by omega)
      refine ⟨MyMemoryAllocator.fragment h heap a n,?_,hfragment,hframe⟩
      rw [hlaid.1]
      simp only [statusOf_eq_free,gt_iff_lt]
      rw [if_pos hfit]
    · rw [carve,if_neg hfit,Option.map_eq_some_iff] at hc
      obtain ⟨found,hfound,heq⟩ := hc
      obtain ⟨rfl,rfl⟩ := Prod.mk.inj heq
      have hrest : rest.length < fuel := by omega
      obtain ⟨heap',hmalloc,hlaid',hframe⟩ := ih hlaid.2 (by omega) hrest hfound
      have hlink : link none (a + h + s.size) found.2 = link none (a + h + s.size) rest := by
        rw [link_of_ne_nil (carve_ne_nil hfound).2,link_of_ne_nil (carve_ne_nil hfound).1]
      refine ⟨heap',?_,⟨?_,hlaid'⟩,fun k hk => hframe k (by omega)⟩
      · rw [hlaid.1]
        simp only [statusOf_eq_free,gt_iff_lt]
        rw [if_neg hfit]
        exact hmalloc
      · rw [hframe a (by omega),hlink]
        exact hlaid.1

theorem findBlockFrom_laid {heap : Heap} {prev : Option Nat} {a p fuel : Nat}
    {segs : List Segment} (hlaid : Laid h heap prev a segs none) (hfuel : segs.length < fuel) :
    MyMemoryAllocator.findBlockFrom heap p fuel (link none a segs) =
      .ok (locate h p a segs) := by
  induction segs generalizing prev a fuel with
  | nil =>
    obtain ⟨fuel,rfl⟩ : ∃ m, fuel = m + 1 := ⟨fuel - 1,by omega⟩
    rfl
  | cons s rest ih =>
    rw [List.length_cons] at hfuel
    obtain ⟨fuel,rfl⟩ : ∃ m, fuel = m + 1 := ⟨fuel - 1,by omega⟩
    rw [link,MyMemoryAllocator.findBlockFrom,hlaid.1,locate]
    by_cases hp : a + h = p
    · simp [hp]
    · simp only [if_neg hp]
      exact ih hlaid.2 (by omega)

/-- The first join of `free` puts the freed block in front of what follows it. -/
theorem joinFreeNext_laid (hh : 0 < h) {heap : Heap} {prev : Option Nat} {a : Nat}
    {s : Segment} {rest : List Segment} (hlaid : Laid h heap prev a (s :: rest) none)
    (hfree : s.free = true) (hsmall : extent h (s :: rest) < 2 ^ 16) :
    Laid h (MyMemoryAllocator.joinFreeNext h heap a) prev a (attach h s rest) none ∧
      ∀ k, k < a → MyMemoryAllocator.joinFreeNext h heap a k = heap k := by
  cases rest with
  | nil =>
    have hjoin : MyMemoryAllocator.joinFreeNext h heap a = heap := by
      rw [MyMemoryAllocator.joinFreeNext,hlaid.1]
      rfl
    rw [hjoin]
    exact ⟨hlaid,fun _ _ => rfl⟩
  | cons t rest =>
    rw [extent_cons,extent_cons] at hsmall
    have hjoin : MyMemoryAllocator.joinFreeNext h heap a =
        if t.free = true then MyMemoryAllocator.joinNextBlock h heap a else heap := by
      rw [MyMemoryAllocator.joinFreeNext,hlaid.1]
      simp only [link]
      rw [hlaid.2.1]
      simp only [statusOf_eq_free]
    by_cases htfree : t.free = true
    · rw [hjoin,if_pos htfree,attach,if_pos ⟨hfree,htfree⟩]
      exact joinNextBlock_laid hh hlaid (by omega)
    · rw [hjoin,if_neg htfree,attach,if_neg (fun hboth => htfree hboth.2)]
      exact ⟨hlaid,fun _ _ => rfl⟩

/-- The second join of `free`, seen from the block in front of the freed one. -/
theorem joinFreePrev_laid (hh : 0 < h) {heap : Heap} {prev : Option Nat} {a : Nat}
    {q s : Segment} {rest : List Segment} (hlaid : Laid h heap prev a (q :: s :: rest) none)
    (hfree : s.free = true) (hsmall : extent h (q :: s :: rest) < 2 ^ 16) :
    Laid h (MyMemoryAllocator.joinFreePrev h heap (a + h + q.size)) prev a
        (attach h q (s :: rest)) none ∧
      ∀ k, k < a → MyMemoryAllocator.joinFreePrev h heap (a + h + q.size) k = heap k := by
  rw [extent_cons,extent_cons] at hsmall
  have hprev : (heap (a + h + q.size)).prev = some a := by rw [hlaid.2.1]
  have hjoin : MyMemoryAllocator.joinFreePrev h heap (a + h + q.size) =
      if q.free = true then MyMemoryAllocator.joinNextBlock h heap a else heap := by
    rw [MyMemoryAllocator.joinFreePrev,MyMemoryAllocator.joinPrevBlock,hprev]
    simp only
    rw [hlaid.1]
    simp only [statusOf_eq_free]
  by_cases hqfree : q.free = true
  · rw [hjoin,if_pos hqfree,attach,if_pos ⟨hqfree,hfree⟩]
    exact joinNextBlock_laid hh hlaid (by omega)
  · rw [hjoin,if_neg hqfree,attach,if_neg (fun hboth => hqfree hboth.1)]
    exact ⟨hlaid,fun _ _ => rfl⟩

end

/-- A heap whose block list is the merged tiling `segs` of the pool. -/
structure Tiled (h memory memorySize : Nat) (st : MyMemoryAllocator) (segs : List Segment) :
    Prop where
  memory_eq : st.memory = memory
  memorySize_eq : st.memorySize = memorySize
  head_eq : st.head = memory
  laid : Laid h st.heap none memory segs none
  nonempty : segs ≠ []
  merged : Merged segs
  extent_eq : extent h segs = memorySize
  small : memorySize < 2 ^ 16

/-- A call of the application. -/
inductive Call
  | malloc (sz : UInt16)
  | free (p : Nat)
  deriving DecidableEq, Repr

/-- `none` answers a `malloc` that fails, and every `free`. -/
def MyMemoryAllocator.call (h : Nat) (st : MyMemoryAllocator) :
    Call → Except Halt (Option Nat × MyMemoryAllocator)
  | .malloc sz => st.malloc h sz
  | .free p => do
      let st ← st.free h p
      return (none,st)

/-- The abstract pool: `malloc` carves, `free` releases. -/
def poolCall (h memory : Nat) (segs : List Segment) : Call → Option Nat × List Segment
  | .malloc sz =>
      match carve h (uint16 (sz.toNat + sz.toNat % 4)) memory segs with
      | none => (none,segs)
      | some (b,segs') => (some (b + h),segs')
  | .free p => (none,release h p memory segs)

section

variable {h memory memorySize : Nat}

theorem tiled_new (contents : Heap) (hh : 0 < h) (hle : h ≤ memorySize)
    (hsmall : memorySize < 2 ^ 16) :
    Tiled h memory memorySize (MyMemoryAllocator.new h contents memory memorySize)
      [⟨memorySize - h,true⟩] where
  memory_eq := rfl
  memorySize_eq := rfl
  head_eq := rfl
  laid := by
    have hsz : uint16 (memorySize + 2 ^ 32 - h) = memorySize - h := by
      unfold uint16
      omega
    refine ⟨?_,trivial⟩
    change Function.update contents memory _ memory = _
    rw [Function.update_self,hsz]
    rfl
  nonempty := by simp
  merged := merged_singleton _
  extent_eq := by
    rw [extent_cons,extent_nil]
    exact Nat.sub_add_cancel hle
  small := hsmall

theorem Tiled.length_lt_walkFuel (hh : 0 < h) {st : MyMemoryAllocator} {segs : List Segment}
    (hst : Tiled h memory memorySize st segs) : segs.length < st.walkFuel := by
  have hlength := length_le_extent hh segs
  rw [hst.extent_eq] at hlength
  rw [MyMemoryAllocator.walkFuel,hst.memorySize_eq]
  omega

theorem Tiled.printResume (hh : 0 < h) {st : MyMemoryAllocator} {segs : List Segment}
    (hst : Tiled h memory memorySize st segs) : st.printResume h = .ok () := by
  have hlaid := hst.laid
  rw [← hst.head_eq] at hlaid
  have hextent := hst.extent_eq.trans hst.memorySize_eq.symm
  exact printResume_laid hh hlaid hst.nonempty hextent (hst.memorySize_eq ▸ hst.small)

theorem Tiled.some_head {st : MyMemoryAllocator} {segs : List Segment}
    (hst : Tiled h memory memorySize st segs) : some st.head = link none memory segs := by
  rw [link_of_ne_nil hst.nonempty,hst.head_eq]

theorem malloc_refines (hh : 0 < h) {st : MyMemoryAllocator} {segs : List Segment}
    (hst : Tiled h memory memorySize st segs) (sz : UInt16) :
    ∃ st', st.malloc h sz = .ok ((poolCall h memory segs (.malloc sz)).1,st') ∧
      Tiled h memory memorySize st' (poolCall h memory segs (.malloc sz)).2 := by
  have hfuel := hst.length_lt_walkFuel hh
  have hsmall : extent h segs < 2 ^ 16 := by
    rw [hst.extent_eq]
    exact hst.small
  rw [MyMemoryAllocator.malloc,hst.some_head,poolCall]
  cases hc : carve h (uint16 (sz.toNat + sz.toNat % 4)) memory segs with
  | none =>
    refine ⟨st,?_,hst⟩
    rw [mallocFrom_none hst.laid hfuel hc]
    change (MyMemoryAllocator.printResume h st >>= fun _ => pure (none,st)) = _
    rw [hst.printResume hh]
    rfl
  | some found =>
    obtain ⟨b,segs'⟩ := found
    obtain ⟨heap',hmalloc,hlaid,-⟩ := mallocFrom_some hh hst.laid hsmall hfuel hc
    have hst' : Tiled h memory memorySize { st with heap := heap' } segs' :=
      { hst with
        laid := hlaid
        nonempty := (carve_ne_nil hc).2
        merged := carve_merged hst.merged hc
        extent_eq := by rw [extent_carve hc,hst.extent_eq] }
    refine ⟨_,?_,hst'⟩
    rw [hmalloc]
    change (MyMemoryAllocator.printResume h { st with heap := heap' } >>=
      fun _ => pure (some (b + h),{ st with heap := heap' })) = _
    rw [hst'.printResume hh]
    rfl

/-- `free` on the head of the list has no block in front to join. -/
theorem joinFreePrev_head {heap : Heap} {a : Nat} {segs : List Segment} {next : Option Nat}
    (hlaid : Laid h heap none a segs next) (hne : segs ≠ []) :
    MyMemoryAllocator.joinFreePrev h heap a = heap := by
  cases segs with
  | nil => exact absurd rfl hne
  | cons s rest =>
    rw [MyMemoryAllocator.joinFreePrev,hlaid.1]

/-- The join behind a freed block leaves the blocks in front of it as they are. -/
theorem joinFreeNext_behind (hh : 0 < h) {heap : Heap} {l r r' : List Segment} {q s t : Segment}
    {b : Nat} (hlaid : Laid h heap none memory (l ++ q :: s :: r) none)
    (hsmall : extent h (l ++ q :: s :: r) < 2 ^ 16) (hb : b = memory + extent h (l ++ [q]))
    (hattach : attach h { s with free := true } r = t :: r') :
    Laid h (MyMemoryAllocator.joinFreeNext h
      (Function.update heap b { heap b with status := .FREE }) b) none memory
        (l ++ q :: t :: r') none := by
  subst hb
  have hsplit : ∀ segs', l ++ q :: segs' = (l ++ [q]) ++ segs' := by simp
  rw [hsplit (s :: r)] at hlaid
  rw [hsplit (t :: r')]
  have hback := (laid_append.mp hlaid).2
  have hbackSmall : extent h ({ s with free := true } :: r) < 2 ^ 16 := by
    simp only [extent_append,extent_cons] at hsmall ⊢
    omega
  obtain ⟨hjoined,hframe⟩ := joinFreeNext_laid hh (laid_free hh hback) rfl hbackSmall
  rw [hattach] at hjoined
  apply hlaid.replace_suffix hh (by simp) (by simp) _ hjoined
  intro k hk
  rw [hframe k hk,Function.update_of_ne (Nat.ne_of_lt hk)]

/-- `free` of a located block: the status, the join behind and the join in front. -/
theorem free_of_found (hh : 0 < h) {st : MyMemoryAllocator} {segs : List Segment} {p b : Nat}
    (hst : Tiled h memory memorySize st segs) (hl : locate h p memory segs = some b) :
    let freed := Function.update st.heap b { st.heap b with status := .FREE }
    let joined := MyMemoryAllocator.joinFreeNext h freed b
    MyMemoryAllocator.printResume h { st with heap := joined } = .ok () ∧
      Laid h (MyMemoryAllocator.joinFreePrev h joined b) none memory (release h p memory segs)
        none := by
  intro freed joined
  have hsmall : extent h segs < 2 ^ 16 := by
    rw [hst.extent_eq]
    exact hst.small
  have hresume : ∀ heap segs', Laid h heap none memory segs' none → segs' ≠ [] →
      extent h segs' = extent h segs →
      MyMemoryAllocator.printResume h { st with heap := heap } = .ok () := by
    intro heap segs' hlaid hne hextent
    have hsize : st.memorySize = extent h segs := by rw [hst.memorySize_eq,hst.extent_eq]
    rw [← hst.head_eq] at hlaid
    apply printResume_laid hh hlaid hne
    · rw [hextent,hsize]
    · rw [hsize]
      exact hsmall
  have hlaid := hst.laid
  obtain ⟨s,r,hcases⟩ := release_of_locate hst.merged hl
  obtain ⟨t,r',hattach,hfree⟩ := attach_eq_cons h { s with free := true } r
  have hextent := extent_attach h { s with free := true } r
  rw [hattach] at hextent
  rcases hcases with ⟨rfl,rfl,hrelease⟩ | ⟨l,q,rfl,hb,hrelease⟩
  · obtain ⟨hjoined,-⟩ := joinFreeNext_laid hh (laid_free hh hlaid) rfl hsmall
    rw [hattach] at hjoined
    refine ⟨hresume _ _ hjoined (by simp) hextent,?_⟩
    rw [hrelease,hattach,joinFreePrev_head hjoined (by simp)]
    exact hjoined
  · have hwhole : extent h (l ++ q :: t :: r') = extent h (l ++ q :: s :: r) := by
      simp only [extent_append,extent_cons] at hextent ⊢
      omega
    have hjoined : Laid h joined none memory (l ++ q :: t :: r') none :=
      joinFreeNext_behind hh hlaid hsmall hb hattach
    refine ⟨hresume _ _ hjoined (by simp) hwhole,?_⟩
    have hmiddle := (laid_append.mp hjoined).2
    have hmiddleSmall : extent h (q :: t :: r') < 2 ^ 16 := by
      rw [← hwhole,extent_append] at hsmall
      omega
    have hposition : b = memory + extent h l + h + q.size := by
      rw [hb,extent_append,extent_cons,extent_nil]
      omega
    obtain ⟨hmerged,hframe⟩ := joinFreePrev_laid hh hmiddle hfree hmiddleSmall
    rw [← hposition] at hmerged hframe
    obtain ⟨u,r'',hattach',-⟩ := attach_eq_cons h q (t :: r')
    rw [hrelease,hattach,hattach']
    rw [hattach'] at hmerged
    exact hjoined.replace_suffix hh (by simp) (by simp) hframe hmerged

theorem release_ne_nil {p a : Nat} {segs : List Segment} (hh : 0 < h)
    (hne : segs ≠ []) : release h p a segs ≠ [] := by
  intro hnil
  have hextent := extent_release h p a segs
  have hlength := length_le_extent hh segs
  rw [hnil,extent_nil] at hextent
  apply hne
  apply List.length_eq_zero_iff.mp
  omega

theorem free_refines (hh : 0 < h) {st : MyMemoryAllocator} {segs : List Segment}
    (hst : Tiled h memory memorySize st segs) (p : Nat) :
    ∃ st', st.free h p = .ok st' ∧ Tiled h memory memorySize st' (release h p memory segs) := by
  have hfind : st.findBlock p = .ok (locate h p memory segs) := by
    rw [MyMemoryAllocator.findBlock,hst.some_head]
    exact findBlockFrom_laid hst.laid (hst.length_lt_walkFuel hh)
  rw [MyMemoryAllocator.free,hfind]
  cases hl : locate h p memory segs with
  | none =>
    refine ⟨st,rfl,?_⟩
    rw [release,markFree_of_locate_none hl,compact_of_merged h hst.merged]
    exact hst
  | some b =>
    obtain ⟨hresume,hlaid⟩ := free_of_found hh hst hl
    let freed := Function.update st.heap b { st.heap b with status := .FREE }
    let joined := MyMemoryAllocator.joinFreeNext h freed b
    refine ⟨{ st with heap := MyMemoryAllocator.joinFreePrev h joined b },?_,{ hst with
      laid := hlaid
      nonempty := release_ne_nil hh hst.nonempty
      merged := release_merged h p memory segs
      extent_eq := by rw [extent_release,hst.extent_eq] }⟩
    change (MyMemoryAllocator.printResume h { st with heap := joined } >>=
      fun _ => pure { st with heap := MyMemoryAllocator.joinFreePrev h joined b }) = _
    rw [hresume]
    rfl

theorem call_refines (hh : 0 < h) {st : MyMemoryAllocator} {segs : List Segment}
    (hst : Tiled h memory memorySize st segs) (call : Call) :
    ∃ st', st.call h call = .ok ((poolCall h memory segs call).1,st') ∧
      Tiled h memory memorySize st' (poolCall h memory segs call).2 := by
  cases call with
  | malloc sz => exact malloc_refines hh hst sz
  | free p =>
    obtain ⟨st',hfree,hst'⟩ := free_refines hh hst p
    refine ⟨st',?_,hst'⟩
    rw [MyMemoryAllocator.call,hfree]
    rfl

/-- Every run of the allocator answers as the abstract pool does. -/
theorem run_refines_pool (contents : Heap) (hh : 0 < h) (hle : h ≤ memorySize)
    (hsmall : memorySize < 2 ^ 16) (calls : List Call) :
    let start := MyMemoryAllocator.new h contents memory memorySize
    let pool := Transition.runTotal (poolCall h memory) [⟨memorySize - h,true⟩] calls
    ∃ st, Transition.run (MyMemoryAllocator.call h) start calls = .ok (pool.1,st) ∧
      Tiled h memory memorySize st pool.2 := by
  intro start pool
  have hstep : ∀ st segs call, Tiled h memory memorySize st segs → True →
      ∃ st', st.call h call = pure ((poolCall h memory segs call).1,st') ∧
        Tiled h memory memorySize st' (poolCall h memory segs call).2 :=
    fun st segs call hst _ => call_refines hh hst call
  exact Transition.run_refines hstep calls start _ (tiled_new contents hh hle hsmall)
    (Transition.admissible_of_forall (fun _ _ => trivial) _ calls)

end

end Pyrn.Memory
