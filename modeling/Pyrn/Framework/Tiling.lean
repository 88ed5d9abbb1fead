import Mathlib.Algebra.Ring.Nat
import Mathlib.Data.List.Chain

/-!
# Tilings of a region by headed segments

A region is cut into consecutive segments, each behind a header of `h` bytes. A segment is
free or taken; carving takes the front of the first free segment that is large enough, and
releasing frees a segment and compacts neighbouring free segments.
-/

namespace Tiling

structure Segment where
  size : Nat
  free : Bool
  deriving DecidableEq, Repr

/-- The bytes covered by the segments and their headers. -/
def extent (h : Nat) (segs : List Segment) : Nat := (segs.map fun seg => seg.size + h).sum

/-- No two neighbours are both free. -/
def Merged (segs : List Segment) : Prop := segs.IsChain fun s t => ¬(s.free = true ∧ t.free = true)

/-- Two neighbours become one; the header of the second is absorbed. -/
def join (h : Nat) (s t : Segment) : Segment := ⟨s.size + (t.size + h),s.free⟩

/-- Put a segment in front, joining it with a free neighbour when it is free itself. -/
def attach (h : Nat) (s : Segment) : List Segment → List Segment
  | [] => [s]
  | t :: rest => if s.free = true ∧ t.free = true then join h s t :: rest else s :: t :: rest

/-- Join neighbouring free segments everywhere. -/
def compact (h : Nat) : List Segment → List Segment
  | [] => []
  | s :: rest => attach h s (compact h rest)

/-- Take `n` bytes at the front of the first free segment larger than `n + h`; the result
carries the position of the taken segment. -/
def carve (h n : Nat) : Nat → List Segment → Option (Nat × List Segment)
  | _, [] => none
  | a, s :: rest =>
      if s.free = true ∧ n + h < s.size then
        some (a,⟨n,false⟩ :: ⟨s.size - (h + n),true⟩ :: rest)
      else (carve h n (a + h + s.size) rest).map fun found => (found.1,s :: found.2)

/-- The position of the segment whose payload starts at `p`. -/
def locate (h p : Nat) : Nat → List Segment → Option Nat
  | _, [] => none
  | a, s :: rest => if a + h = p then some a else locate h p (a + h + s.size) rest

/-- Free the segment whose payload starts at `p`, if there is one, and compact. -/
def markFree (h p : Nat) : Nat → List Segment → List Segment
  | _, [] => []
  | a, s :: rest =>
      if a + h = p then { s with free := true } :: rest
      else s :: markFree h p (a + h + s.size) rest

def release (h p a : Nat) (segs : List Segment) : List Segment := compact h (markFree h p a segs)

/-- The positions of the payloads of the taken segments. -/
def taken (h : Nat) : Nat → List Segment → List Nat
  | _, [] => []
  | a, s :: rest => (if s.free = true then [] else [a + h]) ++ taken h (a + h + s.size) rest

/-- Every segment starts at a multiple of `k`. -/
def Aligned (k h : Nat) : Nat → List Segment → Prop
  | _, [] => True
  | a, s :: rest => k ∣ a ∧ Aligned k h (a + h + s.size) rest

@[simp] theorem extent_nil (h : Nat) : extent h [] = 0 := rfl

@[simp] theorem extent_cons (h : Nat) (s : Segment) (segs : List Segment) :
    extent h (s :: segs) = s.size + h + extent h segs := by
  simp [extent]

@[simp] theorem extent_append (h : Nat) (l r : List Segment) :
    extent h (l ++ r) = extent h l + extent h r := by
  simp [extent]

theorem length_le_extent {h : Nat} (hh : 0 < h) (segs : List Segment) :
    segs.length ≤ extent h segs := by
  induction segs with
  | nil => exact Nat.le_refl 0
  | cons s segs ih =>
    rw [List.length_cons,extent_cons]
    omega

@[simp] theorem merged_nil : Merged [] := List.IsChain.nil

@[simp] theorem merged_singleton (s : Segment) : Merged [s] := List.IsChain.singleton s

theorem merged_cons_cons {s t : Segment} {rest : List Segment} :
    Merged (s :: t :: rest) ↔ ¬(s.free = true ∧ t.free = true) ∧ Merged (t :: rest) :=
  List.isChain_cons_cons

theorem Merged.tail {s : Segment} {rest : List Segment} (hm : Merged (s :: rest)) :
    Merged rest := List.IsChain.tail hm

/-- Only the status of a segment counts for its neighbours. -/
theorem Merged.congr {segs segs' : List Segment} (hm : Merged segs)
    (hfree : segs'.map Segment.free = segs.map Segment.free) : Merged segs' := by
  have hmap := (List.isChain_map (R := fun x y => ¬(x = true ∧ y = true)) Segment.free).mpr hm
  rw [← hfree] at hmap
  exact (List.isChain_map Segment.free).mp hmap

theorem extent_attach (h : Nat) (s : Segment) (rest : List Segment) :
    extent h (attach h s rest) = s.size + h + extent h rest := by
  cases rest with
  | nil => simp [attach]
  | cons t rest =>
    by_cases hfree : s.free = true ∧ t.free = true
    · rw [attach,if_pos hfree,extent_cons,extent_cons,join]
      simp only
      omega
    · rw [attach,if_neg hfree,extent_cons]

theorem attach_merged (h : Nat) (s : Segment) {rest : List Segment} (hm : Merged rest) :
    Merged (attach h s rest) := by
  cases rest with
  | nil => exact merged_singleton s
  | cons t rest =>
    by_cases hfree : s.free = true ∧ t.free = true
    · rw [attach,if_pos hfree]
      apply hm.congr
      rw [List.map_cons,List.map_cons,join,hfree.1,hfree.2]
    · rw [attach,if_neg hfree,merged_cons_cons]
      exact ⟨hfree,hm⟩

theorem attach_of_merged (h : Nat) {s : Segment} {rest : List Segment}
    (hm : Merged (s :: rest)) : attach h s rest = s :: rest := by
  cases rest with
  | nil => rfl
  | cons t rest => rw [attach,if_neg (merged_cons_cons.mp hm).1]

theorem extent_compact (h : Nat) (segs : List Segment) :
    extent h (compact h segs) = extent h segs := by
  induction segs with
  | nil => rfl
  | cons s rest ih => rw [compact,extent_attach,ih,extent_cons]

theorem compact_merged (h : Nat) (segs : List Segment) : Merged (compact h segs) := by
  induction segs with
  | nil => exact merged_nil
  | cons s rest ih => exact attach_merged h s ih

theorem compact_of_merged (h : Nat) {segs : List Segment} (hm : Merged segs) :
    compact h segs = segs := by
  induction segs with
  | nil => rfl
  | cons s rest ih => rw [compact,ih hm.tail,attach_of_merged h hm]

theorem extent_markFree (h p a : Nat) (segs : List Segment) :
    extent h (markFree h p a segs) = extent h segs := by
  induction segs generalizing a with
  | nil => rfl
  | cons s rest ih =>
    by_cases hp : a + h = p
    · rw [markFree,if_pos hp,extent_cons,extent_cons]
    · rw [markFree,if_neg hp,extent_cons,extent_cons,ih]

theorem extent_release (h p a : Nat) (segs : List Segment) :
    extent h (release h p a segs) = extent h segs := by
  rw [release,extent_compact,extent_markFree]

theorem release_merged (h p a : Nat) (segs : List Segment) : Merged (release h p a segs) :=
  compact_merged h _

theorem extent_carve {h n a at' : Nat} {segs segs' : List Segment}
    (hc : carve h n a segs = some (at',segs')) : extent h segs' = extent h segs := by
  induction segs generalizing a segs' with
  | nil => simp [carve] at hc
  | cons s rest ih =>
    by_cases hfit : s.free = true ∧ n + h < s.size
    · rw [carve,if_pos hfit] at hc
      obtain ⟨rfl,rfl⟩ := Prod.mk.inj (Option.some.inj hc)
      simp only [extent_cons]
      omega
    · rw [carve,if_neg hfit,Option.map_eq_some_iff] at hc
      obtain ⟨found,hfound,heq⟩ := hc
      obtain ⟨rfl,rfl⟩ := Prod.mk.inj heq
      rw [extent_cons,extent_cons,ih hfound]

theorem carve_head {h n a at' : Nat} {s : Segment} {rest segs' : List Segment}
    (hc : carve h n a (s :: rest) = some (at',segs')) :
    ∃ t rest', segs' = t :: rest' ∧ (t.free = true → s.free = true) := by
  by_cases hfit : s.free = true ∧ n + h < s.size
  · rw [carve,if_pos hfit] at hc
    obtain ⟨rfl,rfl⟩ := Prod.mk.inj (Option.some.inj hc)
    exact ⟨_,_,rfl,fun _ => hfit.1⟩
  · rw [carve,if_neg hfit,Option.map_eq_some_iff] at hc
    obtain ⟨found,hfound,heq⟩ := hc
    obtain ⟨rfl,rfl⟩ := Prod.mk.inj heq
    exact ⟨s,found.2,rfl,id⟩

/-- The rest of a carved segment may only be free because the segment was. -/
theorem carve_merged {h n a at' : Nat} {segs segs' : List Segment} (hm : Merged segs)
    (hc : carve h n a segs = some (at',segs')) : Merged segs' := by
  induction segs generalizing a segs' with
  | nil => simp [carve] at hc
  | cons s rest ih =>
    by_cases hfit : s.free = true ∧ n + h < s.size
    · rw [carve,if_pos hfit] at hc
      obtain ⟨rfl,rfl⟩ := Prod.mk.inj (Option.some.inj hc)
      rw [merged_cons_cons]
      exact ⟨by simp,hm.congr (by simp [hfit.1])⟩
    · rw [carve,if_neg hfit,Option.map_eq_some_iff] at hc
      obtain ⟨found,hfound,heq⟩ := hc
      obtain ⟨rfl,rfl⟩ := Prod.mk.inj heq
      have hrest := ih hm.tail hfound
      cases rest with
      | nil => simp [carve] at hfound
      | cons u rest =>
        obtain ⟨t,rest',hsegs,hfree⟩ := carve_head hfound
        rw [hsegs] at hrest ⊢
        rw [merged_cons_cons] at hm ⊢
        exact ⟨fun hboth => hm.1 ⟨hboth.1,hfree hboth.2⟩,hrest⟩

theorem compact_append (h : Nat) {l r : List Segment} (hm : Merged (l ++ compact h r)) :
    compact h (l ++ r) = l ++ compact h r := by
  induction l with
  | nil => rfl
  | cons s rest ih =>
    rw [List.cons_append,compact,ih hm.tail]
    exact attach_of_merged h hm

/-- A located segment, with the segments in front of it and behind it. -/
theorem exists_split_of_locate {h p a b : Nat} {segs : List Segment}
    (hl : locate h p a segs = some b) : ∃ l s r, segs = l ++ s :: r ∧ b = a + extent h l ∧
      markFree h p a segs = l ++ { s with free := true } :: r := by
  induction segs generalizing a with
  | nil => simp [locate] at hl
  | cons s rest ih =>
    by_cases hp : a + h = p
    · rw [locate,if_pos hp] at hl
      refine ⟨[],s,rest,rfl,(Option.some.inj hl).symm,?_⟩
      rw [markFree,if_pos hp,List.nil_append]
    · rw [locate,if_neg hp] at hl
      obtain ⟨l,t,r,hsegs,hb,hmark⟩ := ih hl
      refine ⟨s :: l,t,r,by rw [hsegs,List.cons_append],?_,?_⟩
      · rw [hb,extent_cons]
        omega
      · rw [markFree,if_neg hp,hmark,List.cons_append]

theorem markFree_of_locate_none {h p a : Nat} {segs : List Segment}
    (hl : locate h p a segs = none) : markFree h p a segs = segs := by
  induction segs generalizing a with
  | nil => rfl
  | cons s rest ih =>
    by_cases hp : a + h = p
    · simp [locate,if_pos hp] at hl
    · rw [locate,if_neg hp] at hl
      rw [markFree,if_neg hp,ih hl]

theorem attach_eq_cons (h : Nat) (s : Segment) (rest : List Segment) :
    ∃ t rest', attach h s rest = t :: rest' ∧ t.free = s.free := by
  cases rest with
  | nil => exact ⟨s,[],rfl,rfl⟩
  | cons t rest =>
    by_cases hfree : s.free = true ∧ t.free = true
    · exact ⟨join h s t,rest,if_pos hfree,rfl⟩
    · exact ⟨s,t :: rest,if_neg hfree,rfl⟩

/-- Releasing a segment of a merged tiling is local: the segment joins its two neighbours. -/
theorem release_of_locate {h p a b : Nat} {segs : List Segment} (hm : Merged segs)
    (hl : locate h p a segs = some b) : ∃ s r,
      (segs = s :: r ∧ b = a ∧ release h p a segs = attach h { s with free := true } r) ∨
      ∃ l q, segs = l ++ q :: s :: r ∧ b = a + extent h (l ++ [q]) ∧
        release h p a segs = l ++ attach h q (attach h { s with free := true } r) := by
  obtain ⟨l,s,r,hsegs,hb,hmark⟩ := exists_split_of_locate hl
  rw [hsegs] at hm
  obtain ⟨hfront,hend⟩ := List.isChain_split.mp hm
  have hback : Merged r := hend.tail
  have hcompact : compact h ({ s with free := true } :: r) =
      attach h { s with free := true } r := by
    rw [compact,compact_of_merged h hback]
  refine ⟨s,r,?_⟩
  rcases List.eq_nil_or_concat l with rfl | ⟨front,q,rfl⟩
  · left
    refine ⟨hsegs,hb,?_⟩
    rw [release,hmark,List.nil_append,hcompact]
  · right
    rw [List.concat_eq_append] at *
    refine ⟨front,q,by rw [hsegs,List.append_assoc]; rfl,hb,?_⟩
    obtain ⟨t,rest',hattach,hfree⟩ := attach_eq_cons h q (attach h { s with free := true } r)
    have hmerged : Merged (front ++ t :: rest') := by
      rw [List.append_assoc] at hfront
      have hq : Merged (front ++ [q]) := (List.isChain_split.mp hfront).1
      have ht : Merged (t :: rest') := by
        rw [← hattach]
        exact attach_merged h q (attach_merged h _ hback)
      exact List.isChain_split.mpr ⟨hq.congr (by simp [hfree]),ht⟩
    have hlocal : compact h (q :: { s with free := true } :: r) = t :: rest' := by
      rw [compact,hcompact,hattach]
    rw [release,hmark,List.append_assoc,List.cons_append,List.nil_append,hattach,
      compact_append h (by rw [hlocal]; exact hmerged),hlocal]

/-- Carving cuts one segment in two and leaves the others alone. -/
theorem exists_split_of_carve {h n a b : Nat} {segs segs' : List Segment}
    (hc : carve h n a segs = some (b,segs')) : ∃ l s r, segs = l ++ s :: r ∧ s.free = true ∧
      n + h < s.size ∧ b = a + extent h l ∧
      segs' = l ++ ⟨n,false⟩ :: ⟨s.size - (h + n),true⟩ :: r := by
  induction segs generalizing a segs' with
  | nil => simp [carve] at hc
  | cons s rest ih =>
    by_cases hfit : s.free = true ∧ n + h < s.size
    · rw [carve,if_pos hfit] at hc
      obtain ⟨rfl,rfl⟩ := Prod.mk.inj (Option.some.inj hc)
      exact ⟨[],s,rest,rfl,hfit.1,hfit.2,rfl,rfl⟩
    · rw [carve,if_neg hfit,Option.map_eq_some_iff] at hc
      obtain ⟨found,hfound,heq⟩ := hc
      obtain ⟨rfl,rfl⟩ := Prod.mk.inj heq
      obtain ⟨l,t,r,hsegs,hfree,hsize,hb,hsegs'⟩ := ih hfound
      refine ⟨s :: l,t,r,by rw [hsegs,List.cons_append],hfree,hsize,?_,?_⟩
      · rw [hb,extent_cons]
        omega
      · rw [hsegs',List.cons_append]

theorem carve_eq_none_iff {h n a : Nat} {segs : List Segment} :
    carve h n a segs = none ↔ ∀ s ∈ segs, ¬(s.free = true ∧ n + h < s.size) := by
  induction segs generalizing a with
  | nil => simp [carve]
  | cons s rest ih =>
    rw [carve,List.forall_mem_cons]
    by_cases hfit : s.free = true ∧ n + h < s.size
    · rw [if_pos hfit]
      exact iff_of_false (by simp) fun hnone => hnone.1 hfit
    · rw [if_neg hfit,Option.map_eq_none_iff,ih]
      exact (and_iff_right hfit).symm

theorem taken_append (h a : Nat) (l r : List Segment) :
    taken h a (l ++ r) = taken h a l ++ taken h (a + extent h l) r := by
  induction l generalizing a with
  | nil => rfl
  | cons s rest ih =>
    have hend : a + extent h (s :: rest) = a + h + s.size + extent h rest := by
      rw [extent_cons]
      omega
    rw [List.cons_append,taken,taken,ih,hend,List.append_assoc]

theorem le_of_mem_taken {h a p : Nat} {segs : List Segment} (hp : p ∈ taken h a segs) :
    a + h ≤ p := by
  induction segs generalizing a with
  | nil => cases hp
  | cons s rest ih =>
    rw [taken,List.mem_append] at hp
    rcases hp with hp | hp
    · split_ifs at hp
      · cases hp
      · exact (List.mem_singleton.mp hp).ge
    · have hbehind := ih hp
      omega

theorem taken_attach (h a : Nat) (s : Segment) (rest : List Segment) :
    taken h a (attach h s rest) = taken h a (s :: rest) := by
  cases rest with
  | nil => rfl
  | cons t rest =>
    by_cases hfree : s.free = true ∧ t.free = true
    · have hend : a + h + (s.size + (t.size + h)) = a + h + s.size + h + t.size := by omega
      rw [attach,if_pos hfree,join,taken,taken,taken,if_pos hfree.1,if_pos hfree.2]
      simp only [hend,List.nil_append]
    · rw [attach,if_neg hfree]

theorem taken_compact (h a : Nat) (segs : List Segment) :
    taken h a (compact h segs) = taken h a segs := by
  induction segs generalizing a with
  | nil => rfl
  | cons s rest ih => rw [compact,taken_attach,taken,taken,ih]

theorem taken_markFree {h p a : Nat} (hh : 0 < h) (segs : List Segment) :
    taken h a (markFree h p a segs) = (taken h a segs).erase p := by
  induction segs generalizing a with
  | nil => rfl
  | cons s rest ih =>
    by_cases hp : a + h = p
    · have hfar : p ∉ taken h (a + h + s.size) rest := by
        intro hmem
        have hbehind := le_of_mem_taken hmem
        omega
      rw [markFree,if_pos hp,taken,taken,if_pos rfl,List.nil_append]
      by_cases hfree : s.free = true
      · rw [if_pos hfree,List.nil_append,List.erase_of_not_mem hfar]
      · rw [if_neg hfree,hp,List.singleton_append,List.erase_cons_head]
    · have hfront : p ∉ (if s.free = true then [] else [a + h]) := by
        intro hmem
        split_ifs at hmem
        · cases hmem
        · exact hp (List.mem_singleton.mp hmem).symm
      rw [markFree,if_neg hp,taken,taken,ih,List.erase_append_right _ hfront]

/-- Releasing a taken segment removes it from the taken ones. -/
theorem taken_release {h p a : Nat} (hh : 0 < h) (segs : List Segment) :
    taken h a (release h p a segs) = (taken h a segs).erase p := by
  rw [release,taken_compact,taken_markFree hh]

/-- Carving adds one taken segment. -/
theorem taken_carve {h n a b : Nat} {segs segs' : List Segment}
    (hc : carve h n a segs = some (b,segs')) :
    (taken h a segs').Perm ((b + h) :: taken h a segs) := by
  obtain ⟨l,s,r,rfl,hfree,hsize,rfl,rfl⟩ := exists_split_of_carve hc
  have hend : a + extent h l + h + n + h + (s.size - (h + n)) = a + extent h l + h + s.size := by
    omega
  rw [taken_append,taken_append,taken,taken,taken,if_neg Bool.false_ne_true,if_pos rfl,
    if_pos hfree,hend]
  exact List.perm_middle

/-- A merged tiling without taken segments is one free segment. -/
theorem eq_singleton_of_taken_eq_nil {h a : Nat} {segs : List Segment} (hm : Merged segs)
    (hne : segs ≠ []) (hnone : taken h a segs = []) : ∃ n, segs = [⟨n,true⟩] := by
  obtain ⟨s,rest,rfl⟩ := List.exists_cons_of_ne_nil hne
  have hfree {t : Segment} {b : Nat} {behind : List Segment}
      (hnone : taken h b (t :: behind) = []) : t.free = true := by
    by_contra htaken
    rw [taken,if_neg htaken] at hnone
    cases hnone
  have hs := hfree hnone
  cases rest with
  | nil => exact ⟨s.size,by rw [← hs]⟩
  | cons t rest =>
    rw [taken,List.append_eq_nil_iff] at hnone
    exact absurd ⟨hs,hfree hnone.2⟩ (merged_cons_cons.mp hm).1

theorem aligned_append {k h a : Nat} {l r : List Segment} :
    Aligned k h a (l ++ r) ↔ Aligned k h a l ∧ Aligned k h (a + extent h l) r := by
  induction l generalizing a with
  | nil => exact (and_iff_right trivial).symm
  | cons s rest ih =>
    have hend : a + extent h (s :: rest) = a + h + s.size + extent h rest := by
      rw [extent_cons]
      omega
    rw [List.cons_append,Aligned,Aligned,ih,hend,and_assoc]

theorem aligned_attach {k h a : Nat} {s : Segment} {rest : List Segment}
    (ha : Aligned k h a (s :: rest)) : Aligned k h a (attach h s rest) := by
  cases rest with
  | nil => exact ha
  | cons t rest =>
    by_cases hfree : s.free = true ∧ t.free = true
    · have hend : a + h + (s.size + (t.size + h)) = a + h + s.size + h + t.size := by omega
      rw [attach,if_pos hfree,join,Aligned,hend]
      exact ⟨ha.1,ha.2.2⟩
    · rw [attach,if_neg hfree]
      exact ha

theorem aligned_compact {k h a : Nat} {segs : List Segment} (ha : Aligned k h a segs) :
    Aligned k h a (compact h segs) := by
  induction segs generalizing a with
  | nil => exact trivial
  | cons s rest ih => exact aligned_attach ⟨ha.1,ih ha.2⟩

theorem aligned_markFree {k h p a : Nat} {segs : List Segment} (ha : Aligned k h a segs) :
    Aligned k h a (markFree h p a segs) := by
  induction segs generalizing a with
  | nil => exact trivial
  | cons s rest ih =>
    by_cases hp : a + h = p
    · rw [markFree,if_pos hp]
      exact ha
    · rw [markFree,if_neg hp]
      exact ⟨ha.1,ih ha.2⟩

theorem aligned_release {k h p a : Nat} {segs : List Segment} (ha : Aligned k h a segs) :
    Aligned k h a (release h p a segs) := aligned_compact (aligned_markFree ha)

/-- Carving a multiple of `k` keeps the alignment, and the carved segment is aligned. -/
theorem aligned_carve {k h n a b : Nat} {segs segs' : List Segment} (hh : k ∣ h) (hn : k ∣ n)
    (ha : Aligned k h a segs) (hc : carve h n a segs = some (b,segs')) :
    Aligned k h a segs' := by
  obtain ⟨l,s,r,rfl,-,hsize,-,rfl⟩ := exists_split_of_carve hc
  obtain ⟨hfront,hstart,hback⟩ := aligned_append.mp ha
  have hend : a + extent h l + h + n + h + (s.size - (h + n)) = a + extent h l + h + s.size := by
    omega
  refine aligned_append.mpr ⟨hfront,hstart,Nat.dvd_add (Nat.dvd_add hstart hh) hn,?_⟩
  rw [hend]
  exact hback

theorem dvd_of_carve {k h n a b : Nat} {segs segs' : List Segment} (ha : Aligned k h a segs)
    (hc : carve h n a segs = some (b,segs')) : k ∣ b := by
  obtain ⟨l,s,r,rfl,-,-,rfl,-⟩ := exists_split_of_carve hc
  exact (aligned_append.mp ha).2.1

end Tiling
