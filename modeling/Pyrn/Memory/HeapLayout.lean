import Pyrn.Framework.Tiling
import Pyrn.Memory.MyMemoryAllocator

/-!
# Headers that describe a tiling

`Laid h heap prev a segs next` says that the headers from address `a` on are those of the
segments `segs`, linked both ways, between the block `prev` and the block `next`. The list
operations of the allocator are local: each rewrites the headers of its own segments.
-/

namespace Pyrn.Memory

open Tiling

def statusOf (free : Bool) : MemBlockStatus := if free then .FREE else .INUSE

@[simp] theorem statusOf_eq_free {free : Bool} : statusOf free = .FREE ↔ free = true := by
  cases free <;> decide

/-- The first block of a layout that continues with `next`. -/
def link (next : Option Nat) (a : Nat) : List Segment → Option Nat
  | [] => next
  | _ :: _ => some a

/-- The last block of a layout that begins behind `prev`. -/
def lastBlock (h : Nat) : Option Nat → Nat → List Segment → Option Nat
  | prev, _, [] => prev
  | _, a, s :: rest => lastBlock h (some a) (a + h + s.size) rest

def Laid (h : Nat) (heap : Heap) : Option Nat → Nat → List Segment → Option Nat → Prop
  | _, _, [], _ => True
  | prev, a, s :: rest, next =>
      heap a = ⟨prev,s.size,a + h,statusOf s.free,link next (a + h + s.size) rest⟩ ∧
        Laid h heap (some a) (a + h + s.size) rest next

section

variable {h : Nat}

theorem link_append (next : Option Nat) (a : Nat) (l r : List Segment) :
    link next a (l ++ r) = link (link next (a + extent h l) r) a l := by
  cases l with
  | nil => simp [link]
  | cons s rest => rfl

theorem link_of_ne_nil {next : Option Nat} {a : Nat} {segs : List Segment} (hne : segs ≠ []) :
    link next a segs = some a := by
  cases segs with
  | nil => exact absurd rfl hne
  | cons s rest => rfl

theorem laid_append {heap : Heap} {prev : Option Nat} {a : Nat} {l r : List Segment}
    {next : Option Nat} :
    Laid h heap prev a (l ++ r) next ↔
      Laid h heap prev a l (link next (a + extent h l) r) ∧
        Laid h heap (lastBlock h prev a l) (a + extent h l) r next := by
  induction l generalizing prev a with
  | nil => simp [Laid,lastBlock]
  | cons s rest ih =>
    have hend : a + extent h (s :: rest) = a + h + s.size + extent h rest := by
      rw [extent_cons]
      omega
    rw [hend,List.cons_append,Laid,Laid,lastBlock,ih,link_append (h := h),and_assoc]

/-- A layout depends on the headers inside its extent only. -/
theorem Laid.congr (hh : 0 < h) {heap heap' : Heap} {prev : Option Nat} {a : Nat}
    {segs : List Segment} {next : Option Nat} (hlaid : Laid h heap prev a segs next)
    (hsame : ∀ k, a ≤ k → k < a + extent h segs → heap' k = heap k) :
    Laid h heap' prev a segs next := by
  induction segs generalizing prev a with
  | nil => exact trivial
  | cons s rest ih =>
    rw [extent_cons] at hsame
    refine ⟨?_,ih hlaid.2 ?_⟩
    · rw [hsame a (Nat.le_refl a) (by omega)]
      exact hlaid.1
    · intro k hle hlt
      exact hsame k (by omega) (by omega)

/-- The headers behind a prefix may be replaced. -/
theorem Laid.replace_suffix (hh : 0 < h) {heap heap' : Heap} {prev : Option Nat} {a : Nat}
    {l r r' : List Segment} (hlaid : Laid h heap prev a (l ++ r) none) (hne : r ≠ [])
    (hne' : r' ≠ []) (hsame : ∀ k, k < a + extent h l → heap' k = heap k)
    (hr' : Laid h heap' (lastBlock h prev a l) (a + extent h l) r' none) :
    Laid h heap' prev a (l ++ r') none := by
  rw [laid_append] at hlaid ⊢
  rw [link_of_ne_nil hne'] 
  rw [link_of_ne_nil hne] at hlaid
  exact ⟨hlaid.1.congr hh fun k _ hlt => hsame k hlt,hr'⟩

theorem relink_of_lt {heap : Heap} {p a k : Nat} (segs : List Segment) (hlt : k < a) :
    MyMemoryAllocator.relink heap p (link none a segs) k = heap k := by
  cases segs with
  | nil => rfl
  | cons s rest => exact Function.update_of_ne (by omega) _ _

theorem laid_relink (hh : 0 < h) {heap : Heap} {prev : Option Nat} {p a : Nat}
    {segs : List Segment} (hlaid : Laid h heap prev a segs none) :
    Laid h (MyMemoryAllocator.relink heap p (link none a segs)) (some p) a segs none := by
  cases segs with
  | nil => exact trivial
  | cons s rest =>
    refine ⟨?_,hlaid.2.congr hh ?_⟩
    · simp [MyMemoryAllocator.relink,link,hlaid.1]
    · intro k hle hlt
      exact Function.update_of_ne (by omega) _ _

theorem laid_free {heap : Heap} {prev : Option Nat} {a : Nat} {s : Segment}
    {rest : List Segment} {next : Option Nat} (hh : 0 < h)
    (hlaid : Laid h heap prev a (s :: rest) next) :
    Laid h (Function.update heap a { heap a with status := .FREE }) prev a
      ({ s with free := true } :: rest) next := by
  refine ⟨?_,hlaid.2.congr hh ?_⟩
  · rw [Function.update_self,hlaid.1]
    rfl
  · intro k hle hlt
    exact Function.update_of_ne (by omega) _ _

/-- `JoinNextBlock` joins two segments and touches no header in front of them. -/
theorem joinNextBlock_laid (hh : 0 < h) {heap : Heap} {prev : Option Nat} {a : Nat}
    {s t : Segment} {rest : List Segment} (hlaid : Laid h heap prev a (s :: t :: rest) none)
    (hfit : s.size + (t.size + h) < 2 ^ 16) :
    Laid h (MyMemoryAllocator.joinNextBlock h heap a) prev a (join h s t :: rest) none ∧
      ∀ k, k < a → MyMemoryAllocator.joinNextBlock h heap a k = heap k := by
  obtain ⟨hs,ht,hrest⟩ := hlaid
  let b := a + h + s.size
  let c := b + h + t.size
  let unlinked := Function.update heap a { heap a with next := (heap b).next }
  let relinked := MyMemoryAllocator.relink unlinked a (link none c rest)
  have hunlinked : ∀ k, k ≠ a → unlinked k = heap k := fun k hk => Function.update_of_ne hk _ _
  have hat : unlinked a = { heap a with next := (heap b).next } := Function.update_self ..
  have hb : unlinked b = heap b := hunlinked b (by omega)
  have hrelinked : ∀ k, k < c → relinked k = unlinked k := fun k hk => relink_of_lt rest hk
  have hra : relinked a = { heap a with next := (heap b).next } := by
    rw [hrelinked a (by omega),hat]
  have hrb : relinked b = heap b := by rw [hrelinked b (by omega),hb]
  have hjoin : MyMemoryAllocator.joinNextBlock h heap a = Function.update relinked a
      ⟨prev,s.size + (t.size + h),a + h,statusOf s.free,link none c rest⟩ := by
    have hnext : (heap a).next = some b := by rw [hs]; rfl
    have hlink : (unlinked b).next = link none c rest := by rw [hb,ht]
    have hsize : uint16 ((relinked a).sz + ((relinked b).sz + h)) = s.size + (t.size + h) := by
      rw [hra,hrb,hs,ht]
      exact Nat.mod_eq_of_lt hfit
    have hnew : ({ relinked a with
        sz := uint16 ((relinked a).sz + ((relinked b).sz + h)) } : MemBlock) =
        ⟨prev,s.size + (t.size + h),a + h,statusOf s.free,link none c rest⟩ := by
      rw [hsize,hra,hs,ht]
    rw [MyMemoryAllocator.joinNextBlock,hnext,← hnew]
    simp only
    rw [hlink]
  have hend : a + h + (s.size + (t.size + h)) = c := by omega
  have htail : Laid h relinked (some a) c rest none := by
    apply laid_relink hh
    exact hrest.congr hh fun k hle _ => hunlinked k (by omega)
  rw [hjoin,join]
  refine ⟨⟨?_,?_⟩,?_⟩
  · rw [Function.update_self,hend]
  · rw [hend]
    exact htail.congr hh fun k hle _ => Function.update_of_ne (by omega) _ _
  · intro k hk
    rw [Function.update_of_ne (by omega),hrelinked k (by omega),hunlinked k (by omega)]

/-- Splitting a free segment, with the same locality. -/
theorem fragment_laid (hh : 0 < h) {heap : Heap} {prev : Option Nat} {a n : Nat}
    {s : Segment} {rest : List Segment} (hlaid : Laid h heap prev a (s :: rest) none)
    (hfit : n + h < s.size) (hsize : s.size < 2 ^ 16) :
    Laid h (MyMemoryAllocator.fragment h heap a n) prev a
        (⟨n,false⟩ :: ⟨s.size - (h + n),true⟩ :: rest) none ∧
      ∀ k, k < a → MyMemoryAllocator.fragment h heap a n k = heap k := by
  obtain ⟨hs,hrest⟩ := hlaid
  let b := a + h + n
  let c := a + h + s.size
  let relinked := MyMemoryAllocator.relink heap b (link none c rest)
  let second : MemBlock := ⟨some a,s.size - (h + n),b + h,.FREE,link none c rest⟩
  have hrelinked : ∀ k, k < c → relinked k = heap k := fun k hk => relink_of_lt rest hk
  have hra : relinked a = heap a := hrelinked a (by omega)
  have hfragment : MyMemoryAllocator.fragment h heap a n =
      Function.update (Function.update relinked b second) a
        ⟨prev,n,a + h,.INUSE,some b⟩ := by
    have hnext : (heap a).next = link none c rest := by rw [hs]
    have hdata : (heap a).data = a + h := by rw [hs]
    have hremainder : uint16 ((relinked a).sz - (h + n)) = s.size - (h + n) := by
      have hlt : s.size - (h + n) < 2 ^ 16 := by omega
      rw [hra,hs]
      exact Nat.mod_eq_of_lt hlt
    have hsecond : (⟨some a,uint16 ((relinked a).sz - (h + n)),b + h,.FREE,
        (relinked a).next⟩ : MemBlock) = second := by
      rw [hremainder,hra,hnext]
    rw [MyMemoryAllocator.fragment,hnext,hdata]
    simp only
    rw [hsecond,Function.update_of_ne (show a ≠ b by omega)]
    change Function.update (Function.update relinked b second) a
      ⟨(relinked a).prev,n,(relinked a).data,.INUSE,some b⟩ = _
    rw [hra,hs]
  have hend : b + h + (s.size - (h + n)) = c := by omega
  have htail : Laid h relinked (some b) c rest none := laid_relink hh hrest
  rw [hfragment]
  refine ⟨⟨?_,?_,?_⟩,?_⟩
  · rw [Function.update_self]
    rfl
  · rw [Function.update_of_ne (show b ≠ a by omega),Function.update_self,hend]
    rfl
  · rw [hend]
    apply htail.congr hh
    intro k hle hlt
    rw [Function.update_of_ne (by omega),Function.update_of_ne (by omega)]
  · intro k hk
    rw [Function.update_of_ne (by omega),Function.update_of_ne (by omega),hrelinked k (by omega)]

end

end Pyrn.Memory
