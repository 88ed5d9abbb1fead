import Pyrn.Can.CorrelatorRegistry
import Pyrn.Framework.PositionRun

/-!
# The blocks that the correlator tracks

The calls of `AddData` that one comparison of two frames makes are the maximal runs of positions
where the frames differ.
-/

namespace Pyrn.Can

open PositionRun

/-- A call of `AddData`: the key of the variable that it is made on, and the bytes. -/
structure AddDataCall where
  key : VariableKey
  d : List UInt8
  deriving DecidableEq, Repr

namespace CANCorrelator

/-- `storeBlock` with the call of `AddData` that it makes. -/
def storeBlockCall (found : Int → Bool) (memory : Nat → Option (List UInt8)) (st : CANCorrelator)
    (id : UInt32) (s : Int) (varBlock : List UInt8) : Option (AddDataCall × CANCorrelator) := do
  let index := st.searchSimilarVariable id s varBlock.length
  let (index,st) ← if found index = true then some (index,st)
    else st.insertNewVariable memory id s varBlock.length
  let ve ← st.variableList[index.toNat]?
  return (⟨ve.key,varBlock⟩,{ st with
    variableList := st.variableList.modify index.toNat fun ve =>
      { ve with vData := ve.vData.addData varBlock } })

/-- The loop of `TrackVariations` with the calls of `AddData` that it makes. -/
def trackCallsFrom (memory : Nat → Option (List UInt8)) (id : UInt32) :
    Nat → Int → List UInt8 → List (UInt8 × UInt8) → CANCorrelator →
      Option (List AddDataCall × CANCorrelator)
  | _, s, varBlock, [], st =>
      if varBlock.length ≠ 0 then do
        let (call,st) ← st.storeBlockCall (fun index => index > 0) memory id s varBlock
        return ([call],st)
      else some ([],st)
  | i, s, varBlock, (one,two) :: rest, st =>
      if one ≠ two then
        if varBlock.length < varBlockSize then
          trackCallsFrom memory id (i + 1) (if s = -1 then i else s) (varBlock ++ [one]) rest st
        else none
      else if varBlock.length ≠ 0 then do
        let (call,st) ← st.storeBlockCall (fun index => index ≥ 0) memory id s varBlock
        let (calls,st) ← trackCallsFrom memory id (i + 1) (-1) [] rest st
        return (call :: calls,st)
      else trackCallsFrom memory id (i + 1) s varBlock rest st

/-- `TrackVariations` with the calls of `AddData` that it makes. -/
def trackCalls (memory : Nat → Option (List UInt8)) (st : CANCorrelator) (id : UInt32)
    (dataOne dataTwo : List UInt8) : Option (List AddDataCall × CANCorrelator) :=
  trackCallsFrom memory id 0 (-1) [] (dataOne.zip dataTwo) st

/-- The call of `AddData` for a block. -/
def callOf (id : UInt32) (block : ChangedBlock) : AddDataCall := ⟨block.key id,block.bytes⟩

section Calls

variable {memory : Nat → Option (List UInt8)} {id : UInt32}

/-- The call goes to a variable with the key of the block, known or new. -/
theorem storeBlockCall_eq {found : Int → Bool} (hfound : ∀ index, found index = true → 0 ≤ index)
    (st : CANCorrelator) (block : ChangedBlock) :
    st.storeBlockCall found memory id block.s block.bytes =
      (st.storeBlock found memory id block.s block.bytes).map fun st' =>
        (callOf id block,st') := by
  have hsearch := searchSimilarVariable_eq st id block
  rw [storeBlockCall,storeBlock]
  generalize st.searchSimilarVariable id block.s block.bytes.length = index at hsearch
  by_cases hknown : found index = true
  · simp only [if_pos hknown,Option.bind_eq_bind,Option.bind_some,Option.pure_def]
    cases hfind : st.variableList.findIdx? fun ve => ve.key = block.key id with
    | none =>
      rw [hfind] at hsearch
      have hpos := hfound index hknown
      simp only at hsearch
      omega
    | some i =>
      rw [hfind] at hsearch
      obtain ⟨hlt,hkey,-⟩ := List.findIdx?_eq_some_iff_getElem.mp hfind
      simp only [hsearch,Int.toNat_natCast,List.getElem?_eq_getElem hlt,Option.bind_some,
        Option.map_some,callOf]
      rw [of_decide_eq_true hkey]
  · simp only [if_neg hknown,insertNewVariable,Option.bind_eq_bind,Option.pure_def]
    split_ifs with hroom
    · cases hmemory : memory st.curVariables with
      | none => rfl
      | some m =>
        simp only [Option.bind_some,Int.toNat_natCast,curVariables,
          List.getElem?_concat_length,Option.map_some]
        rfl
    · rfl

theorem trackCallsFrom_eq (pairs : List (UInt8 × UInt8)) (i : Nat) (s : Int)
    (varBlock : List UInt8) (st : CANCorrelator) :
    trackCallsFrom memory id i s varBlock pairs st =
      (trackFrom memory id i s varBlock pairs st).map fun st' =>
        ((allChanges i s varBlock pairs).map (callOf id),st') := by
  induction pairs generalizing i s varBlock st with
  | nil =>
    rw [trackCallsFrom,trackFrom,allChanges,changesFrom,List.nil_append]
    by_cases hopen : varBlock.length ≠ 0
    · rw [if_pos hopen,if_pos hopen,if_pos hopen,storeAtEnd,
        storeBlockCall_eq (fun index h => Int.le_of_lt (of_decide_eq_true h)) st ⟨s,varBlock⟩]
      cases st.storeBlock (fun index => index > 0) memory id s varBlock <;> rfl
    · rw [if_neg hopen,if_neg hopen,if_neg hopen]
      rfl
  | cons pair rest ih =>
    obtain ⟨one,two⟩ := pair
    by_cases hsame : one = two
    · subst hsame
      rw [trackCallsFrom,trackFrom,if_neg (not_not.mpr rfl),if_neg (not_not.mpr rfl)]
      by_cases hopen : varBlock.length ≠ 0
      · rw [if_pos hopen,if_pos hopen,allChanges_close one hopen,storeInside,
          storeBlockCall_eq (fun index h => of_decide_eq_true h) st ⟨s,varBlock⟩]
        cases st.storeBlock (fun index => index ≥ 0) memory id s varBlock with
        | none => rfl
        | some st₁ =>
          simp only [Option.map_some,Option.bind_eq_bind,Option.bind_some,ih]
          cases trackFrom memory id (i + 1) (-1) [] rest st₁ <;> rfl
      · have hnone : varBlock = [] := List.length_eq_zero_iff.mp (not_not.mp hopen)
        subst hnone
        rw [if_neg hopen,if_neg hopen,allChanges_skip,ih]
    · rw [trackCallsFrom,trackFrom,if_pos hsame,if_pos hsame,allChanges_changed hsame]
      by_cases hroom : varBlock.length < varBlockSize
      · rw [if_pos hroom,if_pos hroom,ih]
      · rw [if_neg hroom,if_neg hroom]
        rfl

end Calls

/-- The two frames differ at a position. -/
def Differs (dataOne dataTwo : List UInt8) (i : Nat) : Prop := dataOne[i]? ≠ dataTwo[i]?

/-- The bytes of the new frame at a run of positions. -/
def runBlock (dataOne : List UInt8) (s n : Nat) : ChangedBlock := ⟨s,(dataOne.drop s).take n⟩

section Runs

variable {dataOne dataTwo : List UInt8}

theorem not_differs_of_le (hsame : dataOne.length = dataTwo.length) {i : Nat}
    (hi : dataOne.length ≤ i) : ¬Differs dataOne dataTwo i := by
  rw [Differs,List.getElem?_eq_none hi,List.getElem?_eq_none (by omega)]
  exact not_not.mpr rfl

theorem lt_of_differs (hsame : dataOne.length = dataTwo.length) {i : Nat}
    (hi : Differs dataOne dataTwo i) : i < dataOne.length := by
  by_contra hle
  exact not_differs_of_le hsame (Nat.le_of_not_lt hle) hi

theorem bytes_runBlock_length {s n : Nat} (hfit : s + n ≤ dataOne.length) :
    (runBlock dataOne s n).bytes.length = n := by
  rw [runBlock,List.length_take,List.length_drop]
  omega

/-- A maximal run lies in the frames, so that its block has its length. -/
theorem key_runBlock (hsame : dataOne.length = dataTwo.length) {s n : Nat}
    (hrun : IsMaximal (Differs dataOne dataTwo) s n) (id : UInt32) :
    callOf id (runBlock dataOne s n) = ⟨(id,s,n),(dataOne.drop s).take n⟩ := by
  have hpos := hrun.nonempty
  have hlast := lt_of_differs hsame (hrun.holds (s + n - 1) (by omega) (by omega))
  rw [callOf,ChangedBlock.key,bytes_runBlock_length (by omega)]
  rfl

/-- The pair of bytes at which the scan is. -/
theorem of_drop_zip {i : Nat} {one two : UInt8} {rest : List (UInt8 × UInt8)}
    (h : (one,two) :: rest = (dataOne.zip dataTwo).drop i) :
    dataOne[i]? = some one ∧ dataTwo[i]? = some two ∧
      rest = (dataOne.zip dataTwo).drop (i + 1) := by
  have hhead : (dataOne.zip dataTwo)[i]? = some (one,two) := by
    rw [← Nat.add_zero i,← List.getElem?_drop,← h]
    rfl
  obtain ⟨hone,htwo⟩ := List.getElem?_zip_eq_some.mp hhead
  exact ⟨hone,htwo,by rw [← List.drop_drop,← h]; rfl⟩

theorem bytes_length_of_open (hsame : dataOne.length = dataTwo.length) {k i : Nat}
    (hopen : IsOpen (Differs dataOne dataTwo) k i) :
    (runBlock dataOne k (i - k)).bytes.length ≠ 0 := by
  have hbegun := hopen.begun
  have hlast := lt_of_differs hsame (hopen.holds (i - 1) (by omega) (by omega))
  rw [bytes_runBlock_length (by omega)]
  omega

/-- One more byte for the block that is open. -/
theorem bytes_runBlock_succ {k i : Nat} {one : UInt8} (hle : k ≤ i)
    (hone : dataOne[i]? = some one) :
    (runBlock dataOne k (i - k)).bytes ++ [one] = (runBlock dataOne k (i + 1 - k)).bytes := by
  have hnext : (dataOne.drop k)[i - k]? = some one := by
    rw [List.getElem?_drop,Nat.add_sub_cancel' hle,hone]
  rw [runBlock,runBlock,Nat.succ_sub hle,List.take_add_one,hnext]
  rfl

/-- The blocks that the scan finds from a byte on are those of the maximal runs from there on, or
from the beginning of the open one on. -/
theorem mem_allChanges_iff (hsame : dataOne.length = dataTwo.length)
    (pairs : List (UInt8 × UInt8)) (i : Nat) (hpairs : pairs = (dataOne.zip dataTwo).drop i)
    (block : ChangedBlock) :
    (IsClosed (Differs dataOne dataTwo) i →
      (block ∈ allChanges i (-1) [] pairs ↔
        ∃ s n, i ≤ s ∧ IsMaximal (Differs dataOne dataTwo) s n ∧ block = runBlock dataOne s n)) ∧
    ∀ k, IsOpen (Differs dataOne dataTwo) k i →
      (block ∈ allChanges i k (runBlock dataOne k (i - k)).bytes pairs ↔
        ∃ s n, k ≤ s ∧ IsMaximal (Differs dataOne dataTwo) s n ∧ block = runBlock dataOne s n) := by
  induction pairs generalizing i with
  | nil =>
    have hend : dataOne.length ≤ i := by
      have hlength := congrArg List.length hpairs
      rw [List.length_nil,List.length_drop,List.length_zip] at hlength
      omega
    have hnone (j : Nat) (hj : i ≤ j) := not_differs_of_le hsame (Nat.le_trans hend hj)
    constructor
    · intro _
      exact iff_of_false (fun hmem => nomatch hmem) (not_exists_from hnone)
    · intro k hopen
      rw [allChanges,changesFrom,if_pos (bytes_length_of_open hsame hopen),List.nil_append,
        List.mem_singleton,hopen.exists_from (hnone i (Nat.le_refl i))]
      exact (or_iff_left (not_exists_from fun j hj => hnone j (Nat.le_of_succ_le hj))).symm
  | cons pair rest ih =>
    obtain ⟨one,two⟩ := pair
    obtain ⟨hone,htwo,hrest⟩ := of_drop_zip hpairs
    obtain ⟨hclosed,hopened⟩ := ih (i + 1) hrest
    by_cases hequal : one = two
    · subst hequal
      have hi : ¬Differs dataOne dataTwo i := by
        rw [Differs,hone,htwo]
        exact not_not.mpr rfl
      have hlater := hclosed (isClosed_succ hi)
      constructor
      · intro _
        rw [allChanges_skip,hlater,exists_from_succ hi]
      · intro k hopen
        rw [allChanges_close one (bytes_length_of_open hsame hopen),List.mem_cons,hlater,
          hopen.exists_from hi]
        rfl
    · have hi : Differs dataOne dataTwo i := by
        rw [Differs,hone,htwo]
        exact fun heq => hequal (Option.some.inj heq)
      constructor
      · intro hstart
        have hfirst := bytes_runBlock_succ (Nat.le_refl i) hone
        rw [Nat.sub_self] at hfirst
        rw [allChanges_changed hequal,if_pos rfl]
        exact hfirst ▸ hopened i (hstart.begin hi)
      · intro k hopen
        have hnot : (k : Int) ≠ -1 := by omega
        rw [allChanges_changed hequal,if_neg hnot,
          bytes_runBlock_succ (Nat.le_of_lt hopen.begun) hone]
        exact hopened k (hopen.extend hi)

theorem mem_changed_iff (hsame : dataOne.length = dataTwo.length) (block : ChangedBlock) :
    block ∈ allChanges 0 (-1) [] (dataOne.zip dataTwo) ↔
      ∃ s n, IsMaximal (Differs dataOne dataTwo) s n ∧ block = runBlock dataOne s n := by
  have hfirst := (mem_allChanges_iff hsame _ 0 List.drop_zero.symm block).1 fun k hk => nomatch hk
  rw [hfirst]
  constructor
  · rintro ⟨s,n,-,hrun⟩
    exact ⟨s,n,hrun⟩
  · rintro ⟨s,n,hrun⟩
    exact ⟨s,n,Nat.zero_le s,hrun⟩

variable {memory : Nat → Option (List UInt8)} {id : UInt32}

/-- Whenever the comparison completes, its calls are those of the maximal runs, from the left to
the right. -/
theorem trackCalls_runs (hsame : dataOne.length = dataTwo.length) {st st' : CANCorrelator}
    (h : st.trackVariations memory id dataOne dataTwo = some st') :
    ∃ calls, st.trackCalls memory id dataOne dataTwo = some (calls,st') ∧
      calls.Pairwise (fun one two => one.key.2.1 < two.key.2.1) ∧
      ∀ call, call ∈ calls ↔ ∃ s n : Nat, IsMaximal (Differs dataOne dataTwo) s n ∧
        call = ⟨(id,s,n),(dataOne.drop s).take n⟩ := by
  have hcalls := @trackCallsFrom_eq memory id (dataOne.zip dataTwo) 0 (-1) [] st
  rw [trackVariations] at h
  rw [h,Option.map_some] at hcalls
  refine ⟨_,hcalls,?_,fun call => ?_⟩
  · exact List.pairwise_map.mpr (allChanges_sorted _ (.inl ⟨rfl,rfl⟩)).1
  · rw [List.mem_map]
    constructor
    · rintro ⟨block,hblock,rfl⟩
      obtain ⟨s,n,hrun,rfl⟩ := (mem_changed_iff hsame block).mp hblock
      exact ⟨s,n,hrun,key_runBlock hsame hrun id⟩
    · rintro ⟨s,n,hrun,rfl⟩
      exact ⟨runBlock dataOne s n,(mem_changed_iff hsame _).mpr ⟨s,n,hrun,rfl⟩,
        key_runBlock hsame hrun id⟩

/-- With room for a variable a block is stored, and takes up at most one. -/
theorem storeBlock_completes (found : Int → Bool) {st : CANCorrelator} (block : ChangedBlock)
    (hroom : st.curVariables < canMaxVars)
    (hmemory : ∀ n < canMaxVars, (memory n).isSome = true) :
    ∃ st', st.storeBlock found memory id block.s block.bytes = some st' ∧
      st'.curVariables ≤ st.curVariables + 1 := by
  by_cases hfound : found (st.searchSimilarVariable id block.s block.bytes.length) = true
  · rw [storeBlock]
    simp only [if_pos hfound,Option.bind_eq_bind,Option.bind_some]
    refine ⟨_,rfl,?_⟩
    simp only [curVariables,List.length_modify]
    exact Nat.le_succ _
  · rw [insert_then_add found (Bool.eq_false_iff.mpr hfound)]
    obtain ⟨m,hm⟩ := Option.isSome_iff_exists.mp (hmemory _ hroom)
    simp only [scheme,if_pos hroom,hm,Option.map_some]
    refine ⟨_,rfl,?_⟩
    simp only [curVariables,List.length_append,List.length_singleton]
    exact Nat.le_refl _

theorem storeBlocks_complete {step : CANCorrelator → ChangedBlock → Option CANCorrelator}
    (hstep : ∀ st block, st.curVariables < canMaxVars →
      ∃ st', step st block = some st' ∧ st'.curVariables ≤ st.curVariables + 1)
    (blocks : List ChangedBlock) (st : CANCorrelator)
    (hroom : st.curVariables + blocks.length ≤ canMaxVars) :
    ∃ st', blocks.foldlM step st = some st' ∧
      st'.curVariables ≤ st.curVariables + blocks.length := by
  induction blocks generalizing st with
  | nil => exact ⟨st,rfl,Nat.le_refl _⟩
  | cons block blocks ih =>
    rw [List.length_cons] at hroom ⊢
    obtain ⟨st₁,hfirst,hone⟩ := hstep st block (by omega)
    obtain ⟨st₂,hrest,hmore⟩ := ih st₁ (by omega)
    refine ⟨st₂,?_,by omega⟩
    rw [List.foldlM_cons,hfirst]
    exact hrest

/-- With room for a variable for every block, and no block that is too large, the comparison
completes. -/
theorem trackVariations_completes {st : CANCorrelator}
    (hsize : ∀ block ∈ allChanges 0 (-1) [] (dataOne.zip dataTwo),
      block.bytes.length ≤ varBlockSize)
    (hroom : st.curVariables + (allChanges 0 (-1) [] (dataOne.zip dataTwo)).length ≤ canMaxVars)
    (hmemory : ∀ n < canMaxVars, (memory n).isSome = true) :
    ∃ st', st.trackVariations memory id dataOne dataTwo = some st' := by
  rw [allChanges,List.length_append] at hroom
  have hinsideStep : ∀ st block, curVariables st < canMaxVars →
      ∃ st', insideStep memory id st block = some st' ∧ st'.curVariables ≤ st.curVariables + 1 :=
    fun st block hless =>
      @storeBlock_completes memory id (fun index => index ≥ 0) st block hless hmemory
  have hatEndStep : ∀ st block, curVariables st < canMaxVars →
      ∃ st', atEndStep memory id st block = some st' ∧ st'.curVariables ≤ st.curVariables + 1 :=
    fun st block hless =>
      @storeBlock_completes memory id (fun index => index > 0) st block hless hmemory
  obtain ⟨st₁,hinside,hcount⟩ := storeBlocks_complete hinsideStep
    (changesFrom 0 (-1) [] (dataOne.zip dataTwo)).1 st (by omega)
  obtain ⟨st₂,hend,-⟩ := storeBlocks_complete hatEndStep
    (changesFrom 0 (-1) [] (dataOne.zip dataTwo)).2 st₁ (by omega)
  refine ⟨st₂,?_⟩
  rw [trackVariations,trackFrom_eq _ 0 (-1) (Nat.zero_le _),if_pos hsize,hinside]
  exact hend

/-- For two frames of one length, at most eight bytes, and a list with room for a variable for
every maximal run of positions where they differ, the calls of `AddData` are exactly those of the
maximal runs, from the left to the right: the variable has the beginning and the length of the run
for a key, and the bytes are those of the new frame. -/
theorem trackVariations_runs (memory : Nat → Option (List UInt8)) (st : CANCorrelator)
    (id : UInt32) (hsame : dataOne.length = dataTwo.length) (hlen : dataOne.length ≤ 8)
    (hroom : ∀ runs : List (Nat × Nat), runs.Nodup →
      (∀ run ∈ runs, IsMaximal (Differs dataOne dataTwo) run.1 run.2) →
        st.curVariables + runs.length ≤ canMaxVars)
    (hmemory : ∀ n < canMaxVars, (memory n).isSome = true) :
    ∃ calls st', st.trackCalls memory id dataOne dataTwo = some (calls,st') ∧
      st.trackVariations memory id dataOne dataTwo = some st' ∧
      calls.Pairwise (fun one two => one.key.2.1 < two.key.2.1) ∧
      ∀ call, call ∈ calls ↔ ∃ s n : Nat, IsMaximal (Differs dataOne dataTwo) s n ∧
        call = ⟨(id,s,n),(dataOne.drop s).take n⟩ := by
  have hsorted := allChanges_sorted (dataOne.zip dataTwo) (.inl ⟨rfl,rfl⟩ : Opened 0 (-1) [])
  have hsize : ∀ block ∈ allChanges 0 (-1) [] (dataOne.zip dataTwo),
      block.bytes.length ≤ varBlockSize := by
    intro block hblock
    obtain ⟨s,n,-,rfl⟩ := (mem_changed_iff hsame block).mp hblock
    rw [runBlock,List.length_take,List.length_drop,varBlockSize]
    omega
  have hruns := hroom ((allChanges 0 (-1) [] (dataOne.zip dataTwo)).map fun block =>
    (block.s.toNat,block.bytes.length)) ?_ ?_
  · rw [List.length_map] at hruns
    obtain ⟨st',hcompletes⟩ := @trackVariations_completes dataOne dataTwo memory id st hsize hruns
      hmemory
    obtain ⟨calls,hcalls,hruns⟩ := trackCalls_runs hsame hcompletes
    exact ⟨calls,st',hcalls,hcompletes,hruns⟩
  · refine List.pairwise_map.mpr (hsorted.1.imp_of_mem fun {one two} hone htwo hlt heq => ?_)
    have hlow := hsorted.2 one hone
    rw [if_pos rfl] at hlow
    have hs := congrArg Prod.fst heq
    simp only at hs
    omega
  · intro run hmem
    obtain ⟨block,hblock,rfl⟩ := List.mem_map.mp hmem
    obtain ⟨s,n,hrun,rfl⟩ := (mem_changed_iff hsame block).mp hblock
    have hkey := congrArg (fun call => call.key.2.2) (key_runBlock hsame hrun id)
    have hlength : (runBlock dataOne s n).bytes.length = n := hkey
    simp only [hlength]
    exact hrun

end Runs

/-- Two runs, the second one at the end of the frame. -/
theorem trackVariations_runs_two : ∃ calls st',
    initial.trackCalls (fun _ => some (List.replicate 128 0)) 1 [9,8,3,7] [1,2,3,4] =
        some (calls,st') ∧
      ∀ call, call ∈ calls ↔ ∃ s n : Nat, IsMaximal (Differs [9,8,3,7] [1,2,3,4]) s n ∧
        call = ⟨(1,s,n),([9,8,3,7].drop s).take n⟩ := by
  have hroom : ∀ runs : List (Nat × Nat), runs.Nodup →
      (∀ run ∈ runs, IsMaximal (Differs [9,8,3,7] [1,2,3,4]) run.1 run.2) →
        initial.curVariables + runs.length ≤ canMaxVars := by
    intro runs hnodup hruns
    have hbound : ∀ run ∈ runs, run ∈ List.range 4 ×ˢ List.range 5 := by
      intro run hmem
      have hrun := hruns run hmem
      have hpos := hrun.nonempty
      have hlast := @lt_of_differs [9,8,3,7] [1,2,3,4] rfl _
        (hrun.holds (run.1 + run.2 - 1) (by omega) (by omega))
      simp only [List.length_cons,List.length_nil] at hlast
      exact List.pair_mem_product.mpr ⟨List.mem_range.mpr (by omega),List.mem_range.mpr (by omega)⟩
    have hlength := (hnodup.subperm hbound).length_le
    simp only [initial,curVariables,List.length_nil,canMaxVars]
    exact Nat.le_trans (by simpa using hlength) (by decide)
  obtain ⟨calls,st',hcalls,-,-,hruns⟩ := @trackVariations_runs [9,8,3,7] [1,2,3,4]
    (fun _ => some (List.replicate 128 0)) initial 1 rfl (by decide) hroom fun _ _ => rfl
  exact ⟨calls,st',hcalls,hruns⟩

end CANCorrelator

end Pyrn.Can
