import Pyrn.Storage.SdFifo
import Pyrn.Storage.SdLocks

/-!
# The storage mutex across `Put`

`Put` acquires the storage mutex again for every block write. A block write that stays in one
sector gives it back; one of two sectors gives it back twice, and one of no bytes never.
-/

namespace Pyrn.Storage

open MemoryRing

variable {env : SdEnv}

/-- A block write that stays in the sector in which it begins. -/
def OneSector (block : Int × Int) : Prop := block.1 % 512 + block.2 ≤ 512

instance (block : Int × Int) : Decidable (OneSector block) := inferInstanceAs (Decidable (_ ≤ _))

/-- What the block writes of a call, with the result of the last one, do to a storage mutex that
the thread owns. Block writes that stay in one sector keep it but for the sector writes that fail;
when no command fails, others lose acquisitions, and so does a call that gives up. -/
structure Spent (blocks : List (Int × Int)) (err : Int) (before after : SdState) : Prop where
  charged : Charged before after
  le : failedWrites after.trace = failedWrites before.trace →
    after.access.depth ≤ before.access.depth
  kept : 0 < before.access.depth → (∀ block ∈ blocks, OneSector block) →
    after.access.depth + failedWrites before.trace =
      before.access.depth + failedWrites after.trace
  lost : failures after.trace = failures before.trace → 0 < before.access.depth →
    (∃ block ∈ blocks, ¬OneSector block) → after.access.depth < before.access.depth
  aborted : err = -1 → failures after.trace = failures before.trace →
    0 < before.access.depth → after.access.depth < before.access.depth

/-- When no command fails, no sector write does, and no part of the call fails. -/
theorem Charged.unfailed {s₁ s₂ s₃ : SdState} (hfirst : Charged s₁ s₂) (hnext : Charged s₂ s₃)
    (hsame : failures s₃.trace = failures s₁.trace) :
    failures s₂.trace = failures s₁.trace ∧ failures s₃.trace = failures s₂.trace := by
  have hle₁ := hfirst.failedWrites_le
  have hle₂ := hnext.failedWrites_le
  have hadd₁ := hfirst.failures_le
  have hadd₂ := hnext.failures_le
  omega

theorem Charged.failedWrites_eq {s s' : SdState} (h : Charged s s')
    (hsame : failures s'.trace = failures s.trace) :
    failedWrites s'.trace = failedWrites s.trace := by
  have hle := h.failedWrites_le
  have hadd := h.failures_le
  omega

theorem Spent.append {blocks₁ blocks₂ : List (Int × Int)} {err₁ err₂ : Int} {s₁ s₂ s₃ : SdState}
    (hfirst : Spent blocks₁ err₁ s₁ s₂) (hnext : Spent blocks₂ err₂ s₂ s₃) :
    Spent (blocks₁ ++ blocks₂) err₂ s₁ s₃ := by
  have hmono₁ := hfirst.charged.failedWrites_le
  have hmono₂ := hnext.charged.failedWrites_le
  -- with nothing left to lose the loss has come already
  have hdrop : failures s₃.trace = failures s₁.trace → 0 < s₁.access.depth →
      (0 < s₂.access.depth → s₃.access.depth < s₂.access.depth) →
      s₃.access.depth < s₁.access.depth := by
    intro hsame hpos hless
    obtain ⟨hsame₁,hsame₂⟩ := hfirst.charged.unfailed hnext.charged hsame
    have hle₁ := hfirst.le (hfirst.charged.failedWrites_eq hsame₁)
    have hle₂ := hnext.le (hnext.charged.failedWrites_eq hsame₂)
    omega
  refine ⟨hfirst.charged.trans hnext.charged,fun hsame => ?_,fun hpos hone => ?_,?_,?_⟩
  · exact Nat.le_trans (hnext.le (by omega)) (hfirst.le (by omega))
  · have hkept₁ := hfirst.kept hpos fun block hmem => hone block (List.mem_append_left _ hmem)
    have hkept₂ := hnext.kept (by omega) fun block hmem =>
      hone block (List.mem_append_right _ hmem)
    omega
  · rintro hsame hpos ⟨block,hmem,hcrosses⟩
    obtain ⟨hsame₁,hsame₂⟩ := hfirst.charged.unfailed hnext.charged hsame
    rcases List.mem_append.mp hmem with hmem | hmem
    · have hless := hfirst.lost hsame₁ hpos ⟨block,hmem,hcrosses⟩
      have hle := hnext.le (hnext.charged.failedWrites_eq hsame₂)
      omega
    · exact hdrop hsame hpos fun hrest => hnext.lost hsame₂ hrest ⟨block,hmem,hcrosses⟩
  · intro herr hsame hpos
    have hsame₂ := (hfirst.charged.unfailed hnext.charged hsame).2
    exact hdrop hsame hpos (hnext.aborted herr hsame₂)

/-- A call that gives up behind its first block writes. -/
theorem Spent.stopped {blocks₁ : List (Int × Int)} {s₁ s₂ : SdState}
    (h : Spent blocks₁ (-1) s₁ s₂) (blocks₂ : List (Int × Int)) :
    Spent (blocks₁ ++ blocks₂) (-1) s₁ s₂ :=
  ⟨h.charged,h.le,fun hpos hone => h.kept hpos fun block hmem =>
    hone block (List.mem_append_left _ hmem),fun hsame hpos _ => h.aborted rfl hsame hpos,
    h.aborted⟩

/-- A call that drops the result of its last block write. -/
theorem Spent.dropped {blocks : List (Int × Int)} {err err' : Int} {s₁ s₂ : SdState}
    (h : Spent blocks err s₁ s₂) (herr : err' ≠ -1) : Spent blocks err' s₁ s₂ :=
  ⟨h.charged,h.le,h.kept,h.lost,fun habort => absurd habort herr⟩

section Put

variable {region : SdStorage} {ring : SdCircBuff} {s s' : SdState} {err : Int}

/-- A block write inside the region reaches its loop uncut. -/
theorem writeAt_loop (hring : ring.Seated region) {buffer : Bytes} {start p n : Int}
    (hrange : 0 ≤ p ∧ n ≤ ring.size - p) (hobtains : s.obtains env = true)
    (h : ring.writeAt env buffer start p n s = some (err,s')) :
    writeLoop env buffer start n (turns n) (ring.begin (p.tdiv 512) (p % 512)) (s.trylock env) =
      some (err,s') := by
  obtain ⟨-,hroom⟩ := room_of_seated hring hrange.1
  have hmod : p.tmod 512 = p % 512 := Int.tmod_eq_emod_of_nonneg hrange.1
  rw [SdCircBuff.writeAt,SdStorage.write,if_pos hobtains] at h
  simp only [if_neg (Int.not_lt.mpr (hroom.symm ▸ hrange.2))] at h
  rwa [hmod] at h

/-- When no command fails, a block write inside the region releases the storage mutex once for
every sector. -/
theorem writeAt_unfailed (hring : ring.Seated region) {buffer : Bytes} {start p n : Int}
    (hrange : 0 ≤ p ∧ 0 < n ∧ n ≤ ring.size - p) (hobtains : s.obtains env = true)
    (h : ring.writeAt env buffer start p n s = some (err,s'))
    (hsame : failures s'.trace = failures s.trace) :
    s'.access.depth = s.access.depth + 1 - sectors (p % 512) n ∧ err ≠ -1 := by
  have hdepth := (write_charged h).2
  rw [if_pos hobtains] at hdepth
  obtain ⟨hreleases,herr⟩ := writeLoop_unfailed _ _ _ (writeAt_loop hring ⟨hrange.1,hrange.2.2⟩
    hobtains h) (Int.le_of_lt hrange.2.1) (by simp only [SdStorage.begin]; omega) (.inr rfl)
    (.inr hrange.2.1) hsame
  have hbegun : releases (s.trylock env).trace = releases s.trace := rfl
  simp only [SdStorage.begin,Int.sub_zero] at hreleases
  exact ⟨by omega,herr (.inr hrange.2.1)⟩

/-- A block write inside the region. -/
theorem writeAt_spent (hring : ring.Seated region) {buffer : Bytes} {start p n : Int}
    (hrange : 0 ≤ p ∧ 0 < n ∧ n ≤ ring.size - p)
    (h : ring.writeAt env buffer start p n s = some (err,s')) :
    Spent [(p,n)] err s s' := by
  obtain ⟨hcharged,hdepth⟩ := write_charged h
  by_cases hobtains : s.obtains env = true
  · rw [if_pos hobtains] at hdepth
    have hends := writeLoop_outcome (writeAt_loop hring ⟨hrange.1,hrange.2.2⟩ hobtains h)
      hrange.2.1 (by simp only [SdStorage.begin]; omega) (.inr rfl)
    have hbegun : releases (s.trylock env).trace = releases s.trace := rfl
    have hfailed : failedWrites (s.trylock env).trace = failedWrites s.trace := rfl
    have hunfailed := writeAt_unfailed hring hrange hobtains h
    refine ⟨hcharged,fun hsame => ?_,fun hpos hone => ?_,?_,?_⟩
    · cases hends <;> omega
    · have hsector : p % 512 + n ≤ 512 := hone (p,n) List.mem_cons_self
      cases hends <;> simp only [SdStorage.begin] at * <;> omega
    · rintro hsame hpos ⟨block,hmem,hcrosses⟩
      rw [List.mem_singleton.mp hmem,OneSector] at hcrosses
      have hspent := (hunfailed hsame).1
      have hmany : 2 ≤ sectors (p % 512) n := by
        unfold sectors
        omega
      omega
    · exact fun herr hsame => absurd herr (hunfailed hsame).2
  · rw [if_neg hobtains] at hdepth
    -- without the mutex the thread does not own it
    have hnone : ¬0 < s.access.depth := fun hpos => hobtains (obtains_of_pos env hpos)
    exact ⟨hcharged,fun _ => Nat.le_of_eq hdepth,fun hpos => absurd hpos hnone,
      fun _ hpos => absurd hpos hnone,fun _ _ hpos => absurd hpos hnone⟩

/-- A block in front of the end of the region takes one write. -/
theorem block_spent (hring : ring.Seated region) {buffer : Bytes} {p n : Int}
    (hrange : 0 ≤ p ∧ 0 < n) (hwhole : n ≤ ring.size - p)
    (h : ring.writeAt env buffer 0 p n s = some (err,s')) :
    Spent (splitBlock ring.size p n) err s s' := by
  rw [splitBlock,if_pos hwhole]
  exact writeAt_spent hring ⟨hrange.1,hrange.2,hwhole⟩ h

/-- Any other block takes two, unless the first one ends the call. -/
theorem split_spent (hring : ring.Seated region) {buffer : Bytes} {p n : Int}
    (hrange : 0 ≤ p ∧ p < ring.size) (hsplit : ¬n ≤ ring.size - p) (hfits : n ≤ ring.size)
    {err₁ : Int} {s₁ : SdState}
    (hlow : ring.writeAt env buffer 0 p (ring.size - p) s = some (err₁,s₁)) :
    (err₁ = -1 → Spent (splitBlock ring.size p n) (-1) s s₁) ∧
    (∀ err s', ring.write env buffer (ring.size - p) 0 (n - (ring.size - p)) 0 s₁ =
        some (err,s') → Spent (splitBlock ring.size p n) err s s') := by
  have hfirst := writeAt_spent hring (by omega) hlow
  rw [splitBlock,if_neg hsplit]
  refine ⟨fun herr => ?_,fun err s' hhigh => ?_⟩
  · subst herr
    exact hfirst.stopped [(0,n - (ring.size - p))]
  · have hstart : ring.writeAt env buffer (ring.size - p) 0 (n - (ring.size - p)) s₁ =
        some (err,s') := hhigh
    exact hfirst.append (writeAt_spent hring (by omega) hstart)

variable {ring' : SdCircBuff} {buffer : Bytes} {length : Int}

theorem putWhole_spent (hring : ring.Seated region)
    (hrange : 0 ≤ ring.pWrite ∧ ring.pWrite < ring.size) (hlength : 1 ≤ length)
    (hwhole : length + 4 ≤ ring.size - ring.pWrite)
    (h : ring.putWhole env buffer length s = some (err,ring',s')) :
    Spent (recordBlocks ring.size ring.pWrite length) err s s' := by
  have hnext : wrap ring.size (ring.pWrite + 4) = ring.pWrite + 4 := wrap_of_lt (by omega)
  rw [recordBlocks,hnext]
  obtain ⟨⟨err₁,s₁⟩,hheader,h⟩ := Option.bind_eq_some_iff.mp h
  have hfirst := block_spent hring (n := 4) (by omega) (by omega) hheader
  simp only at h
  split at h
  · rename_i herr
    cases h
    subst herr
    exact hfirst.stopped _
  · rename_i herr
    have hmoved : { ring with pWrite := ring.pWrite + 4 }.Seated region :=
      ⟨hring.storage,hring.size,hring.int,hring.pRead,by simp only; omega⟩
    obtain ⟨⟨err₂,s₂⟩,hdata,h⟩ := Option.bind_eq_some_iff.mp h
    cases h
    have hlast := block_spent hmoved (n := length) (p := ring.pWrite + 4) (by omega)
      (by simp only; omega) hdata
    exact (hfirst.append hlast).dropped herr

theorem putBetween_spent (hring : ring.Seated region)
    (hrange : 0 ≤ ring.pWrite ∧ ring.pWrite < ring.size)
    (hlength : 1 ≤ length ∧ length + 4 < ring.size) (hbetween : ring.size - ring.pWrite = 4)
    (h : ring.putBetween env buffer length s = some (err,ring',s')) :
    Spent (recordBlocks ring.size ring.pWrite length) err s s' := by
  have hnext : wrap ring.size (ring.pWrite + 4) = 0 := by
    unfold wrap
    split <;> omega
  rw [recordBlocks,hnext]
  obtain ⟨⟨err₁,s₁⟩,hheader,h⟩ := Option.bind_eq_some_iff.mp h
  have hfirst := block_spent hring (n := 4) (by omega) (by omega) hheader
  simp only at h
  split at h
  · rename_i herr
    cases h
    subst herr
    exact hfirst.stopped _
  · obtain ⟨⟨err₂,s₂⟩,hdata,h⟩ := Option.bind_eq_some_iff.mp h
    have hstart : ring.writeAt env buffer 0 0 length s₁ = some (err₂,s₂) := hdata
    have hlast := block_spent hring (by omega) (by omega) hstart
    simp only at h
    split at h
    · rename_i herr
      cases h
      subst herr
      exact hfirst.append hlast
    · cases h
      exact hfirst.append hlast

theorem putHeader_spent (hring : ring.Seated region)
    (hrange : 0 ≤ ring.pWrite ∧ ring.pWrite < ring.size) (hsize : 4 < ring.size)
    (hbetween : ring.size - ring.pWrite ≠ 4)
    (h : ring.putHeader env length s = some (err,ring',s')) :
    Spent (splitBlock ring.size ring.pWrite 4) err s s' ∧
      (err ≠ -1 → ring' = { ring with pWrite := wrap ring.size (ring.pWrite + 4) }) := by
  have hint := hring.int
  rw [SdCircBuff.putHeader] at h
  split at h
  · rename_i hbehind
    simp only [SdCircBuff.behind,toUnsigned,sizeofInt] at hbehind
    obtain ⟨⟨err₁,s₁⟩,hheader,h⟩ := Option.bind_eq_some_iff.mp h
    have hfirst := block_spent hring (n := 4) (by omega) (by omega) hheader
    simp only at h
    split at h
    · rename_i herr
      cases h
      subst herr
      exact ⟨hfirst,fun hne => absurd rfl hne⟩
    · cases h
      exact ⟨hfirst,fun _ => by rw [wrap_of_lt (by omega)]; rfl⟩
  · rename_i hbehind
    simp only [SdCircBuff.behind,toUnsigned,sizeofInt] at hbehind
    have hcursor : wrap ring.size (ring.pWrite + 4) = 4 - (ring.size - ring.pWrite) := by
      unfold wrap
      split <;> omega
    obtain ⟨⟨err₁,s₁⟩,hlow,h⟩ := Option.bind_eq_some_iff.mp h
    obtain ⟨hstopped,hboth⟩ := split_spent hring (n := 4) hrange (by omega) (by omega) hlow
    simp only at h
    split at h
    · rename_i herr
      cases h
      exact ⟨hstopped herr,fun hne => absurd rfl hne⟩
    · rename_i herr
      obtain ⟨⟨err₂,s₂⟩,hhigh,h⟩ := Option.bind_eq_some_iff.mp h
      cases h
      exact ⟨(hboth err₂ _ hhigh).dropped herr,fun _ => by rw [hcursor]; rfl⟩

theorem putData_spent (hring : ring.Seated region)
    (hrange : 0 ≤ ring.pWrite ∧ ring.pWrite < ring.size)
    (hlength : 1 ≤ length ∧ length < ring.size) (hend : length ≠ ring.size - ring.pWrite)
    (h : ring.putData env buffer length s = some (err,ring',s')) :
    Spent (splitBlock ring.size ring.pWrite length) err s s' := by
  rw [SdCircBuff.putData] at h
  split at h
  · rename_i hwhole
    obtain ⟨⟨err₁,s₁⟩,hdata,h⟩ := Option.bind_eq_some_iff.mp h
    have hblock := block_spent hring (n := length) (by omega) (by omega) hdata
    simp only at h
    split at h
    · rename_i herr
      cases h
      subst herr
      exact hblock
    · cases h
      exact hblock
  · rename_i hsplit
    obtain ⟨⟨err₁,s₁⟩,hlow,h⟩ := Option.bind_eq_some_iff.mp h
    obtain ⟨hstopped,hboth⟩ := split_spent hring (n := length) hrange (by omega) (by omega) hlow
    simp only at h
    split at h
    · rename_i herr
      cases h
      exact hstopped herr
    · obtain ⟨⟨err₂,s₂⟩,hhigh,h⟩ := Option.bind_eq_some_iff.mp h
      have hblocks := hboth err₂ s₂ hhigh
      simp only at h
      split at h
      · rename_i herr
        cases h
        subst herr
        exact hblocks
      · cases h
        exact hblocks

/-- Header and data of a record, in whichever branch. -/
theorem putRecord_spent (hring : ring.Seated region)
    (hrange : 0 ≤ ring.pWrite ∧ ring.pWrite < ring.size)
    (hlength : 1 ≤ length ∧ length + 4 < ring.size)
    (h : ring.putRecord env buffer length s = some (err,ring',s')) :
    Spent (recordBlocks ring.size ring.pWrite length) err s s' := by
  have hint := hring.int
  rw [SdCircBuff.putRecord] at h
  split at h
  · rename_i hwhole
    simp only [SdCircBuff.behind,toUnsigned,sizeofInt] at hwhole
    exact putWhole_spent hring hrange hlength.1 (by omega) h
  rename_i hwhole
  simp only [SdCircBuff.behind,toUnsigned,sizeofInt] at hwhole
  split at h
  · rename_i hbetween
    simp only [SdCircBuff.behind,toUnsigned,sizeofInt] at hbetween
    exact putBetween_spent hring hrange hlength (by omega) h
  rename_i hbetween
  simp only [SdCircBuff.behind,toUnsigned,sizeofInt] at hbetween
  obtain ⟨⟨err₁,ring₁,s₁⟩,hheader,h⟩ := Option.bind_eq_some_iff.mp h
  obtain ⟨hfirst,hmoved⟩ := putHeader_spent hring hrange (by omega) (by omega) hheader
  simp only at h
  rw [recordBlocks]
  split at h
  · rename_i herr
    cases h
    subst herr
    exact hfirst.stopped _
  · rename_i herr
    have hnext := wrap_range ring.size (ring.pWrite + 4) (by omega)
    have hend : length ≠ ring.size - wrap ring.size (ring.pWrite + 4) := by
      unfold wrap
      split <;> omega
    rw [hmoved herr] at h
    have hring₁ : { ring with pWrite := wrap ring.size (ring.pWrite + 4) }.Seated region :=
      ⟨hring.storage,hring.size,hint,hring.pRead,hnext.1⟩
    exact hfirst.append (putData_spent hring₁ hnext (by simp only; omega) hend h)

theorem putHeader_charged (h : ring.putHeader env length s = some (err,ring',s')) :
    Charged s s' := by
  rw [SdCircBuff.putHeader] at h
  split at h
  · obtain ⟨⟨err₁,s₁⟩,hheader,h⟩ := Option.bind_eq_some_iff.mp h
    have hfirst := (write_charged hheader).1
    simp only at h
    split at h <;> cases h <;> exact hfirst
  · obtain ⟨⟨err₁,s₁⟩,hlow,h⟩ := Option.bind_eq_some_iff.mp h
    have hfirst := (write_charged hlow).1
    simp only at h
    split at h
    · cases h
      exact hfirst
    · obtain ⟨⟨err₂,s₂⟩,hhigh,h⟩ := Option.bind_eq_some_iff.mp h
      cases h
      exact hfirst.trans (write_charged hhigh).1

theorem putData_charged (h : ring.putData env buffer length s = some (err,ring',s')) :
    Charged s s' := by
  rw [SdCircBuff.putData] at h
  split at h
  · obtain ⟨⟨err₁,s₁⟩,hdata,h⟩ := Option.bind_eq_some_iff.mp h
    have hfirst := (write_charged hdata).1
    simp only at h
    split at h <;> cases h <;> exact hfirst
  · obtain ⟨⟨err₁,s₁⟩,hlow,h⟩ := Option.bind_eq_some_iff.mp h
    have hfirst := (write_charged hlow).1
    simp only at h
    split at h
    · cases h
      exact hfirst
    · obtain ⟨⟨err₂,s₂⟩,hhigh,h⟩ := Option.bind_eq_some_iff.mp h
      have hnext := (write_charged hhigh).1
      simp only at h
      split at h <;> cases h <;> exact hfirst.trans hnext

theorem putRecord_charged (h : ring.putRecord env buffer length s = some (err,ring',s')) :
    Charged s s' := by
  rw [SdCircBuff.putRecord] at h
  split at h
  · obtain ⟨⟨err₁,s₁⟩,hheader,h⟩ := Option.bind_eq_some_iff.mp h
    have hfirst := (write_charged hheader).1
    simp only at h
    split at h
    · cases h
      exact hfirst
    · obtain ⟨⟨err₂,s₂⟩,hdata,h⟩ := Option.bind_eq_some_iff.mp h
      cases h
      exact hfirst.trans (write_charged hdata).1
  split at h
  · obtain ⟨⟨err₁,s₁⟩,hheader,h⟩ := Option.bind_eq_some_iff.mp h
    have hfirst := (write_charged hheader).1
    simp only at h
    split at h
    · cases h
      exact hfirst
    · obtain ⟨⟨err₂,s₂⟩,hdata,h⟩ := Option.bind_eq_some_iff.mp h
      have hnext := (write_charged hdata).1
      simp only at h
      split at h <;> cases h <;> exact hfirst.trans hnext
  · obtain ⟨⟨err₁,ring₁,s₁⟩,hheader,h⟩ := Option.bind_eq_some_iff.mp h
    have hfirst := putHeader_charged hheader
    simp only at h
    split at h
    · cases h
      exact hfirst
    · exact hfirst.trans (putData_charged h)

/-- The four ways through `Put`: the mutex is not obtained, the length is refused, there is not
enough space, or the record is written. -/
theorem put_cases {ret : Int} (h : ring.put env buffer length s = some (ret,ring',s')) :
    (¬s.obtains env = true ∧ Steady s s') ∨
    (s.obtains env = true ∧ (length < 0 ∨ length > 2048) ∧ Steady s s') ∨
    (s.obtains env = true ∧ ¬(length < 0 ∨ length > 2048) ∧
      ¬toUnsigned (ring.current + length + sizeofInt) < toUnsigned ring.size ∧ Charged s s' ∧
      s'.access.depth = s.access.depth + 1) ∨
    (s.obtains env = true ∧ ¬(length < 0 ∨ length > 2048) ∧
      toUnsigned (ring.current + length + sizeofInt) < toUnsigned ring.size ∧
      ∃ err ring₁ s₁, ring.putRecord env buffer length (s.trylock env) = some (err,ring₁,s₁) ∧
        s' = s₁.unlock) := by
  have hdepth := depth_trylock env s
  rw [SdCircBuff.put] at h
  split at h
  · rename_i hobtains
    rw [if_pos hobtains] at hdepth
    split at h
    · rename_i hlength
      cases h
      exact .inr (.inl ⟨hobtains,hlength,Steady.release ⟨Charged.refl _,rfl⟩ hobtains⟩)
    · rename_i hlength
      split at h
      · rename_i hspace
        obtain ⟨⟨err,ring₁,s₁⟩,hrecord,h⟩ := Option.bind_eq_some_iff.mp h
        refine .inr (.inr (.inr ⟨hobtains,hlength,hspace,err,ring₁,s₁,hrecord,?_⟩))
        simp only at h
        split at h <;> cases h <;> rfl
      · rename_i hspace
        cases h
        exact .inr (.inr (.inl ⟨hobtains,hlength,hspace,charged_trylock env s,hdepth⟩))
  · rename_i hobtains
    cases h
    exact .inl ⟨hobtains,steady_of_not_obtains hobtains⟩

theorem put_charged {ret : Int} (h : ring.put env buffer length s = some (ret,ring',s')) :
    Charged s s' := by
  rcases put_cases h with ⟨-,hsteady⟩ | ⟨-,-,hsteady⟩ | ⟨-,-,-,hcharged,-⟩ |
    ⟨-,-,-,err,ring₁,s₁,hrecord,rfl⟩
  · exact hsteady.1
  · exact hsteady.1
  · exact hcharged
  · exact ((charged_trylock env s).trans (putRecord_charged hrecord)).unlock

/-- Without the mutex or with a forbidden length `Put` is balanced. -/
theorem put_refused_balanced {ret : Int} (h : ring.put env buffer length s = some (ret,ring',s'))
    (hrefused : s.obtains env = false ∨ length < 0 ∨ length > 2048) :
    RecursiveMutex.Balanced s.access s'.access := by
  rw [RecursiveMutex.balanced_iff]
  rcases put_cases h with ⟨-,hsteady⟩ | ⟨-,-,hsteady⟩ | ⟨hobtains,hlength,-⟩ |
    ⟨hobtains,hlength,-⟩
  · exact hsteady.2
  · exact hsteady.2
  all_goals exact absurd hrefused (not_or.mpr ⟨by rw [hobtains]; decide,hlength⟩)

/-- Without enough space `Put` keeps an acquisition. -/
theorem put_full_unbalanced {ret : Int} (h : ring.put env buffer length s = some (ret,ring',s'))
    (hobtains : s.obtains env = true) (hlength : 0 ≤ length ∧ length ≤ 2048)
    (hfull : ¬toUnsigned (ring.current + length + sizeofInt) < toUnsigned ring.size) :
    ¬RecursiveMutex.Balanced s.access s'.access := by
  rw [RecursiveMutex.balanced_iff]
  rcases put_cases h with ⟨hnot,-⟩ | ⟨-,hrefused,-⟩ | ⟨-,-,-,-,hdepth⟩ | ⟨-,-,hspace,-⟩
  · exact absurd hobtains hnot
  · omega
  · omega
  · exact absurd hspace hfull

/-- A `Put` that writes its record. While every block write stays in one sector, the storage
mutex is balanced exactly when no sector write fails. Otherwise it is balanced, when no command
fails, exactly when the thread did not own the mutex before. -/
theorem put_balanced_iff (hring : ring.Seated region)
    (hrange : 0 ≤ ring.pWrite ∧ ring.pWrite < ring.size)
    (hlength : (1 ≤ length ∧ length ≤ 2048) ∧ length + sizeofInt < ring.size) {ret : Int}
    (hspace : toUnsigned (ring.current + length + sizeofInt) < toUnsigned ring.size)
    (h : ring.put env buffer length s = some (ret,ring',s')) (hobtains : s.obtains env = true) :
    ((∀ block ∈ recordBlocks ring.size ring.pWrite length, OneSector block) →
      (RecursiveMutex.Balanced s.access s'.access ↔
        failedWrites s'.trace = failedWrites s.trace)) ∧
    ((∃ block ∈ recordBlocks ring.size ring.pWrite length, ¬OneSector block) →
      failures s'.trace = failures s.trace →
        (RecursiveMutex.Balanced s.access s'.access ↔ s.access.depth = 0)) := by
  have hdepth := depth_trylock env s
  rw [if_pos hobtains] at hdepth
  rw [sizeofInt] at hlength
  rcases put_cases h with ⟨hnot,-⟩ | ⟨-,hrefused,-⟩ | ⟨-,-,hfull,-⟩ |
    ⟨-,-,-,err,ring₁,s₁,hrecord,rfl⟩
  · exact absurd hobtains hnot
  · omega
  · exact absurd hspace hfull
  have hspent := putRecord_spent hring hrange ⟨hlength.1.1,hlength.2⟩ hrecord
  have hle := hspent.charged.failedWrites_le
  have hfailed : failedWrites (s.trylock env).trace = failedWrites s.trace := rfl
  rw [RecursiveMutex.balanced_iff,SdState.unlock,RecursiveMutex.depth_unlock]
  refine ⟨fun hone => ?_,fun hcrosses hsame => ?_⟩
  · have hkept := hspent.kept (by omega) hone
    simp only
    omega
  · have hless := hspent.lost hsame (by omega) hcrosses
    omega

/-- A `Write` of no bytes acquires the storage mutex and keeps it. -/
theorem writeAt_empty (hring : ring.Seated region) {p : Int} (start : Int)
    (hrange : 0 ≤ p ∧ p ≤ ring.size)
    (h : ring.writeAt env buffer start p 0 s = some (err,s')) :
    err = -1 ∧ s' = s.trylock env := by
  obtain ⟨-,hroom⟩ := room_of_seated hring hrange.1
  rw [SdCircBuff.writeAt,SdStorage.write] at h
  simp only [if_neg (show ¬ring.room (p.tdiv 512) (p.tmod 512) < 0 by omega)] at h
  split at h
  · rw [turns,writeLoop,if_neg (by simp [SdStorage.begin])] at h
    obtain ⟨rfl,rfl⟩ := Prod.mk.inj (Option.some.inj h)
    exact ⟨rfl,rfl⟩
  · obtain ⟨rfl,rfl⟩ := Prod.mk.inj (Option.some.inj h)
    exact ⟨rfl,rfl⟩

/-- The header of an empty record in one piece, when no command fails: the mutex is acquired once
more for the data, unless the header has crossed a sector. -/
theorem putWhole_empty (hring : ring.Seated region)
    (hrange : 0 ≤ ring.pWrite ∧ 4 ≤ ring.size - ring.pWrite) (hpos : 0 < s.access.depth)
    (h : ring.putWhole env buffer 0 s = some (err,ring',s'))
    (hsame : failures s'.trace = failures s.trace) :
    s'.access.depth - 1 = s.access.depth - 1 ↔ ¬OneSector (ring.pWrite,4) := by
  have hobtains := obtains_of_pos env hpos
  obtain ⟨⟨err₁,s₁⟩,hheader,h⟩ := Option.bind_eq_some_iff.mp h
  have hunfailed := writeAt_unfailed hring (n := 4) (by omega) hobtains hheader
  simp only at h
  split at h
  · rename_i herr
    cases h
    exact absurd herr (hunfailed hsame).2
  · obtain ⟨⟨err₂,s₂⟩,hdata,h⟩ := Option.bind_eq_some_iff.mp h
    cases h
    have hmoved : { ring with pWrite := ring.pWrite + 4 }.Seated region :=
      ⟨hring.storage,hring.size,hring.int,hring.pRead,by simp only; omega⟩
    obtain ⟨-,rfl⟩ := writeAt_empty hmoved 0 (p := ring.pWrite + 4) (by simp only; omega) hdata
    have hspent := (hunfailed hsame).1
    have hlast := depth_trylock env s₁
    change (s₁.trylock env).access.depth - 1 = s.access.depth - 1 ↔ _
    have hsectors : (OneSector (ring.pWrite,4) → sectors (ring.pWrite % 512) 4 = 1) ∧
        (¬OneSector (ring.pWrite,4) → sectors (ring.pWrite % 512) 4 = 2) := by
      unfold sectors OneSector
      simp only
      omega
    by_cases hone : OneSector (ring.pWrite,4)
    · have hsingle := hsectors.1 hone
      have howned : 0 < s₁.access.depth := by omega
      rw [if_pos (obtains_of_pos env howned)] at hlast
      exact iff_of_false (by omega) fun hcrosses => hcrosses hone
    · have hdouble := hsectors.2 hone
      refine iff_of_true ?_ hone
      by_cases howned : 0 < s₁.access.depth
      · rw [if_pos (obtains_of_pos env howned)] at hlast
        omega
      · split at hlast <;> omega

/-- Both parts of a header that the end of the region splits stay in their sectors. -/
theorem splitHeader_oneSector (hring : ring.Seated region)
    (hrange : 0 ≤ ring.pWrite ∧ ring.pWrite < ring.size) (hsplit : ring.size - ring.pWrite < 4) :
    ∀ block ∈ splitBlock ring.size ring.pWrite 4, OneSector block := by
  have hsectors := hring.size
  rw [splitBlock,if_neg (by omega)]
  intro block hmem
  rcases List.mem_cons.mp hmem with rfl | hmem
  · unfold OneSector
    omega
  · rw [List.mem_singleton.mp hmem,OneSector]
    omega

/-- Behind a split header the mutex is acquired once more for the data of an empty record. -/
theorem putSplit_empty (hring : ring.Seated region)
    (hrange : 0 ≤ ring.pWrite ∧ ring.pWrite < ring.size) (hsize : 4 < ring.size)
    (hsplit : ring.size - ring.pWrite < 4) (hpos : 0 < s.access.depth)
    (h : ring.putSplit env buffer 0 s = some (err,ring',s'))
    (hsame : failures s'.trace = failures s.trace) :
    s'.access.depth = s.access.depth + 1 := by
  obtain ⟨⟨err₁,ring₁,s₁⟩,hheader,h⟩ := Option.bind_eq_some_iff.mp h
  obtain ⟨hspent,hcursor⟩ := putHeader_spent hring hrange hsize (by omega) hheader
  have hkept := hspent.kept hpos (splitHeader_oneSector hring hrange hsplit)
  simp only at h
  split at h
  · rename_i herr
    cases h
    have haborted := hspent.aborted herr hsame hpos
    have hfailed := hspent.charged.failedWrites_eq hsame
    omega
  · rename_i herr
    have hnext : wrap ring.size (ring.pWrite + 4) = 4 - (ring.size - ring.pWrite) := by
      unfold wrap
      split <;> omega
    rw [hcursor herr,hnext,SdCircBuff.putData,if_pos (by simp only; omega)] at h
    have hmoved : { ring with pWrite := 4 - (ring.size - ring.pWrite) }.Seated region :=
      ⟨hring.storage,hring.size,hring.int,hring.pRead,by simp only; omega⟩
    obtain ⟨⟨err₂,s₂⟩,hdata,h⟩ := Option.bind_eq_some_iff.mp h
    obtain ⟨rfl,rfl⟩ := writeAt_empty hmoved 0 (by simp only; omega) hdata
    simp only [if_true] at h
    cases h
    have hfailed := hspent.charged.failedWrites_eq hsame
    have hlast := depth_trylock env s₁
    have howned : 0 < s₁.access.depth := by omega
    rw [if_pos (obtains_of_pos env howned)] at hlast
    exact hlast.trans (by omega)

/-- A `Put` of an empty record whose commands do not fail keeps an acquisition, but for one that
the header has lost. -/
theorem put_empty_balanced_iff (hring : ring.Seated region)
    (hrange : 0 ≤ ring.pWrite ∧ ring.pWrite < ring.size) {ret : Int}
    (hspace : toUnsigned (ring.current + sizeofInt) < toUnsigned ring.size)
    (hsize : 4 < ring.size)
    (h : ring.put env buffer 0 s = some (ret,ring',s')) (hobtains : s.obtains env = true)
    (hsame : failures s'.trace = failures s.trace) :
    RecursiveMutex.Balanced s.access s'.access ↔
      ∃ block ∈ splitBlock ring.size ring.pWrite 4, ¬OneSector block := by
  have hint := hring.int
  have hdepth := depth_trylock env s
  rw [if_pos hobtains] at hdepth
  rcases put_cases h with ⟨hnot,-⟩ | ⟨-,hrefused,-⟩ | ⟨-,-,hfull,-⟩ |
    ⟨-,-,-,err,ring₁,s₁,hrecord,rfl⟩
  · exact absurd hobtains hnot
  · omega
  · exact absurd hspace (by simpa using hfull)
  rw [RecursiveMutex.balanced_iff,SdState.unlock,RecursiveMutex.depth_unlock]
  rw [SdCircBuff.putRecord] at hrecord
  split at hrecord
  · rename_i hwhole
    simp only [SdCircBuff.behind,toUnsigned,sizeofInt] at hwhole
    have hheader : 4 ≤ ring.size - ring.pWrite := by omega
    have hiff := putWhole_empty hring ⟨hrange.1,hheader⟩ (by omega) hrecord hsame
    rw [hdepth,Nat.add_sub_cancel] at hiff
    rw [splitBlock,if_pos hheader]
    simpa only [List.mem_singleton,exists_eq_left] using hiff
  · rename_i hwhole
    simp only [SdCircBuff.behind,toUnsigned,sizeofInt] at hwhole
    have hsplit : ring.size - ring.pWrite < 4 := by omega
    rw [if_neg (by simp only [SdCircBuff.behind,toUnsigned,sizeofInt]; omega)] at hrecord
    have hkept := putSplit_empty hring hrange hsize hsplit (by omega) hrecord hsame
    refine iff_of_false (by omega) ?_
    rintro ⟨block,hmem,hcrosses⟩
    exact hcrosses (splitHeader_oneSector hring hrange hsplit block hmem)

end Put

end Pyrn.Storage
