import Pyrn.Can.Correlator
import Pyrn.Framework.KeyedList
import Pyrn.Framework.Run

/-!
# The registry of the correlator

Every block of changed bytes has a key, and the variables are a table with keys. The lists stay
in their bounds, the keys distinct and the known variables in use exactly when no event meets a
full list, a block that is too large, or at its end a block of the first variable.
-/

namespace Pyrn.Can

/-- A block of changed bytes with its first position. -/
structure ChangedBlock where
  s : Int
  bytes : List UInt8
  deriving DecidableEq, Repr

/-- Identifier, index and length. -/
abbrev VariableKey := UInt32 × Int × Nat

def VariableEntry.key (ve : VariableEntry) : VariableKey := (ve.id,ve.index,ve.len)

def ChangedBlock.key (id : UInt32) (block : ChangedBlock) : VariableKey :=
  (id,block.s,block.bytes.length)

namespace CANCorrelator

/-- The blocks that the scan of `TrackVariations` finds from a byte on, those that a byte without
change ends and the one that the end of the frame ends, given the block that is open. -/
def changesFrom : Nat → Int → List UInt8 → List (UInt8 × UInt8) →
    List ChangedBlock × List ChangedBlock
  | _, s, varBlock, [] => ([],if varBlock.length ≠ 0 then [⟨s,varBlock⟩] else [])
  | i, s, varBlock, (one,two) :: rest =>
      if one ≠ two then changesFrom (i + 1) (if s = -1 then i else s) (varBlock ++ [one]) rest
      else if varBlock.length ≠ 0 then
        let later := changesFrom (i + 1) (-1) [] rest
        (⟨s,varBlock⟩ :: later.1,later.2)
      else changesFrom (i + 1) s varBlock rest

/-- The event is a frame that the correlator looks at. -/
def Handled (ev : CorrelatorEvent) : Prop :=
  ev.ID &&& 0x0f = canCallback ∧ ev.canData.length ≤ canFrameMaxLen

instance (ev : CorrelatorEvent) : Decidable (Handled ev) := inferInstanceAs (Decidable (_ ∧ _))

/-- The frame of the list that the one of an event resembles. -/
def similarFrame (st : CANCorrelator) (ev : CorrelatorEvent) : Option FrameEntry :=
  if st.searchSimilarFrame ev.id ev.canData ≥ 0 then
    st.frameList[(st.searchSimilarFrame ev.id ev.canData).toNat]?
  else none

/-- The blocks of changed bytes that an event reports. -/
def changes (st : CANCorrelator) (ev : CorrelatorEvent) :
    List ChangedBlock × List ChangedBlock :=
  if Handled ev then
    match st.similarFrame ev with
    | some fe => changesFrom 0 (-1) [] (ev.canData.zip fe.data)
    | none => ([],[])
  else ([],[])

def reported (st : CANCorrelator) (ev : CorrelatorEvent) : List ChangedBlock :=
  (st.changes ev).1 ++ (st.changes ev).2

/-- A block goes to the variable with its key, or to a new variable. -/
def scheme (memory : Nat → Option (List UInt8)) (id : UInt32) :
    Keyed.Scheme VariableEntry VariableKey ChangedBlock where
  key := VariableEntry.key
  keyOf := ChangedBlock.key id
  add block ve := { ve with vData := ve.vData.addData block.bytes }
  new n block :=
    if n < canMaxVars then
      (memory n).map fun m =>
        ⟨id,block.s,block.bytes.length,
          (CANVariableData.new m id 128 block.bytes.length).addData block.bytes⟩
    else none
  key_add _ _ := rfl
  key_new n block ve hnew := by
    split_ifs at hnew
    obtain ⟨m,-,rfl⟩ := Option.map_eq_some_iff.mp hnew
    rfl

def keys (st : CANCorrelator) : List VariableKey := st.variableList.map VariableEntry.key

section Blocks

variable {memory : Nat → Option (List UInt8)} {id : UInt32} {st st' : CANCorrelator}
  {block : ChangedBlock}

theorem searchSimilarVariable_eq (st : CANCorrelator) (id : UInt32) (block : ChangedBlock) :
    st.searchSimilarVariable id block.s block.bytes.length =
      match st.variableList.findIdx? fun ve => ve.key = block.key id with
      | some i => (i : Int)
      | none => -1 := by
  have hsame (ve : VariableEntry) :
      decide (ve.id = id ∧ ve.index = block.s ∧ ve.len = block.bytes.length) =
        decide (ve.key = block.key id) := by
    rw [decide_eq_decide,VariableEntry.key,ChangedBlock.key,Prod.mk.injEq,Prod.mk.injEq]
  cases hfind : st.variableList.findIdx? fun ve => ve.key = block.key id with
  | none => rw [searchSimilarVariable,funext hsame,hfind]
  | some i => rw [searchSimilarVariable,funext hsame,hfind]

/-- The insertion of a variable and its first value. -/
theorem insert_then_add (found : Int → Bool)
    (hfound : found (st.searchSimilarVariable id block.s block.bytes.length) = false) :
    st.storeBlock found memory id block.s block.bytes =
      ((scheme memory id).new st.curVariables block).map fun ve =>
        { st with variableList := st.variableList ++ [ve] } := by
  rw [storeBlock]
  simp only [hfound,insertNewVariable,scheme,Bool.false_eq_true,if_false,Option.bind_eq_bind,
    Option.pure_def]
  split_ifs with hroom
  · cases memory st.curVariables with
    | none => rfl
    | some m =>
      simp only [Option.bind_some,Option.map_some,Int.toNat_natCast,curVariables]
      rw [Keyed.modify_append_last]
  · rfl

theorem storeInside_eq (hnodup : st.keys.Nodup) :
    st.storeInside memory id block.s block.bytes =
      ((scheme memory id).place st.variableList block).map fun vs =>
        { st with variableList := vs } := by
  have hsearch := searchSimilarVariable_eq st id block
  rw [Keyed.Scheme.place]
  cases hfind : st.variableList.findIdx? fun ve => ve.key = block.key id with
  | none =>
    have hunknown := Keyed.findIdx?_eq_none_iff_key.mp hfind
    rw [hfind] at hsearch
    have hnew : (scheme memory id).keyOf block ∉ (scheme memory id).keys st.variableList :=
      hunknown
    rw [storeInside,insert_then_add _ (by rw [hsearch]; rfl),if_neg hnew,Option.map_map]
    rfl
  | some i =>
    have hknown : (scheme memory id).keyOf block ∈ (scheme memory id).keys st.variableList := by
      by_contra hnot
      cases hfind.symm.trans (Keyed.findIdx?_eq_none_iff_key.mpr hnot)
    rw [hfind] at hsearch
    have hfound : decide (st.searchSimilarVariable id block.s block.bytes.length ≥ 0) = true := by
      rw [hsearch]
      exact decide_eq_true (Int.natCast_nonneg i)
    rw [if_pos hknown,storeInside,storeBlock]
    rw [hsearch] at hfound
    simp only [hsearch]
    rw [if_pos hfound]
    simp only [Option.bind_eq_bind,Option.bind_some,Option.pure_def,Int.toNat_natCast]
    rw [Keyed.modify_eq_touch _ hnodup hfind]
    rfl

/-- At the end of a frame, a block that is not one of the first variable is stored as anywhere. -/
theorem storeAtEnd_eq_storeInside (hfirst : st.keys.head? ≠ some (block.key id)) :
    st.storeAtEnd memory id block.s block.bytes = st.storeInside memory id block.s block.bytes := by
  have hsearch := searchSimilarVariable_eq st id block
  have hnot := mt Keyed.findIdx?_eq_zero_iff.mp hfirst
  have hsame : decide (st.searchSimilarVariable id block.s block.bytes.length > 0) =
      decide (st.searchSimilarVariable id block.s block.bytes.length ≥ 0) := by
    rw [hsearch]
    cases hfind : st.variableList.findIdx? fun ve => ve.key = block.key id with
    | none => rfl
    | some i =>
      have hpos : i ≠ 0 := by
        rintro rfl
        exact hnot hfind
      simp only [gt_iff_lt,ge_iff_le,decide_eq_decide]
      omega
  rw [storeAtEnd,storeInside,storeBlock,storeBlock,hsame]

/-- At the end of a frame, a block of the first variable makes a second one with its key. -/
theorem keys_of_storeAtEnd_first (hfirst : st.keys.head? = some (block.key id))
    (hstore : st.storeAtEnd memory id block.s block.bytes = some st') :
    st'.keys = st.keys ++ [block.key id] := by
  have hsearch := searchSimilarVariable_eq st id block
  rw [Keyed.findIdx?_eq_zero_iff.mpr hfirst] at hsearch
  rw [storeAtEnd,insert_then_add _ (by rw [hsearch]; rfl)] at hstore
  obtain ⟨ve,hnew,rfl⟩ := Option.map_eq_some_iff.mp hstore
  rw [keys,keys,List.map_append,List.map_singleton,
    show ve.key = block.key id from (scheme memory id).key_new _ _ _ hnew]

def insideStep (memory : Nat → Option (List UInt8)) (id : UInt32) (st : CANCorrelator)
    (block : ChangedBlock) : Option CANCorrelator :=
  st.storeInside memory id block.s block.bytes

def atEndStep (memory : Nat → Option (List UInt8)) (id : UInt32) (st : CANCorrelator)
    (block : ChangedBlock) : Option CANCorrelator :=
  st.storeAtEnd memory id block.s block.bytes

/-- Blocks inside a frame are placed one after the other. -/
theorem storeAll_eq (blocks : List ChangedBlock) (hnodup : st.keys.Nodup) :
    blocks.foldlM (insideStep memory id) st =
      ((scheme memory id).placeAll st.variableList blocks).map fun vs =>
        { st with variableList := vs } := by
  induction blocks generalizing st with
  | nil => rfl
  | cons block blocks ih =>
    rw [List.foldlM_cons,Keyed.Scheme.placeAll_cons,insideStep,storeInside_eq hnodup]
    cases hplace : (scheme memory id).place st.variableList block with
    | none => rfl
    | some vs =>
      have hnodup' : (CANCorrelator.mk st.frameList vs).keys.Nodup :=
        Keyed.Scheme.nodup_of_place hplace hnodup
      exact ih hnodup'

end Blocks

section Scan

variable {memory : Nat → Option (List UInt8)} {id : UInt32}

def allChanges (i : Nat) (s : Int) (varBlock : List UInt8) (pairs : List (UInt8 × UInt8)) :
    List ChangedBlock :=
  (changesFrom i s varBlock pairs).1 ++ (changesFrom i s varBlock pairs).2

theorem allChanges_changed {one two : UInt8} (hne : one ≠ two) (i : Nat) (s : Int)
    (varBlock : List UInt8) (rest : List (UInt8 × UInt8)) :
    allChanges i s varBlock ((one,two) :: rest) =
      allChanges (i + 1) (if s = -1 then i else s) (varBlock ++ [one]) rest := by
  rw [allChanges,changesFrom,if_pos hne,allChanges]

theorem allChanges_close (one : UInt8) {varBlock : List UInt8} (hopen : varBlock.length ≠ 0)
    (i : Nat) (s : Int) (rest : List (UInt8 × UInt8)) :
    allChanges i s varBlock ((one,one) :: rest) =
      ⟨s,varBlock⟩ :: allChanges (i + 1) (-1) [] rest := by
  rw [allChanges,changesFrom,if_neg (not_not.mpr rfl),if_pos hopen]
  rfl

theorem allChanges_skip (one : UInt8) (i : Nat) (s : Int) (rest : List (UInt8 × UInt8)) :
    allChanges i s [] ((one,one) :: rest) = allChanges (i + 1) s [] rest := by
  rw [allChanges,changesFrom,if_neg (not_not.mpr rfl)]
  rfl

/-- A block that is open will be reported, with all its bytes. -/
theorem exists_of_open (pairs : List (UInt8 × UInt8)) (i : Nat) (s : Int)
    {varBlock : List UInt8} (hopen : varBlock.length ≠ 0) :
    ∃ block ∈ allChanges i s varBlock pairs,varBlock.length ≤ block.bytes.length := by
  induction pairs generalizing i s varBlock with
  | nil =>
    refine ⟨⟨s,varBlock⟩,?_,le_refl _⟩
    rw [allChanges,changesFrom,if_pos hopen]
    exact List.mem_singleton_self _
  | cons pair rest ih =>
    obtain ⟨one,two⟩ := pair
    by_cases hsame : one = two
    · subst hsame
      rw [allChanges_close one hopen]
      exact ⟨_,List.mem_cons_self,le_refl _⟩
    · have hlonger : (varBlock ++ [one]).length = varBlock.length + 1 := List.length_append
      obtain ⟨block,hblock,hle⟩ :=
        @ih (i + 1) (if s = -1 then i else s) (varBlock ++ [one]) (by omega)
      rw [allChanges_changed hsame]
      exact ⟨block,hblock,by omega⟩

/-- Where an open block may have begun. -/
def Opened (i : Nat) (s : Int) (varBlock : List UInt8) : Prop :=
  varBlock.length = 0 ∧ s = -1 ∨ varBlock.length ≠ 0 ∧ 0 ≤ s ∧ s < i

/-- The blocks are reported from the left to the right. -/
theorem allChanges_sorted (pairs : List (UInt8 × UInt8)) {i : Nat} {s : Int}
    {varBlock : List UInt8} (hopened : Opened i s varBlock) :
    (allChanges i s varBlock pairs).Pairwise (fun one two => one.s < two.s) ∧
      ∀ block ∈ allChanges i s varBlock pairs,(if s = -1 then (i : Int) else s) ≤ block.s := by
  induction pairs generalizing i s varBlock with
  | nil =>
    rw [allChanges,changesFrom,List.nil_append]
    rcases hopened with ⟨hnone,rfl⟩ | ⟨hopen,hpos,hlt⟩
    · rw [if_neg (not_not.mpr hnone)]
      exact ⟨.nil,fun _ h => absurd h List.not_mem_nil⟩
    · rw [if_pos hopen]
      refine ⟨List.pairwise_singleton _ _,fun block hblock => ?_⟩
      rw [List.mem_singleton.mp hblock,if_neg (by omega)]
  | cons pair rest ih =>
    obtain ⟨one,two⟩ := pair
    by_cases hsame : one = two
    · subst hsame
      rcases hopened with ⟨hnone,rfl⟩ | ⟨hopen,hpos,hlt⟩
      · obtain ⟨hsorted,hlow⟩ := @ih (i + 1) (-1) varBlock (.inl ⟨hnone,rfl⟩)
        rw [List.length_eq_zero_iff.mp hnone] at hsorted hlow ⊢
        rw [allChanges_skip]
        refine ⟨hsorted,fun block hblock => ?_⟩
        have hle := hlow block hblock
        rw [if_pos rfl] at hle ⊢
        omega
      · obtain ⟨hsorted,hlow⟩ := @ih (i + 1) (-1) [] (.inl ⟨rfl,rfl⟩)
        rw [if_pos rfl] at hlow
        rw [allChanges_close one hopen,if_neg (by omega)]
        refine ⟨List.pairwise_cons.mpr ⟨fun block hblock => ?_,hsorted⟩,fun block hblock => ?_⟩
        · have hle := hlow block hblock
          dsimp only
          omega
        · rcases List.mem_cons.mp hblock with rfl | hblock
          · exact le_refl _
          · have hle := hlow block hblock
            omega
    · have hstart : (if s = -1 then (i : Int) else s) ≠ -1 ∧
          0 ≤ (if s = -1 then (i : Int) else s) ∧ (if s = -1 then (i : Int) else s) < i + 1 := by
        rcases hopened with ⟨-,rfl⟩ | ⟨-,hpos,hlt⟩ <;> split_ifs <;> omega
      have hlonger : (varBlock ++ [one]).length = varBlock.length + 1 := List.length_append
      obtain ⟨hsorted,hlow⟩ :=
        @ih (i + 1) (if s = -1 then i else s) (varBlock ++ [one])
          (.inr ⟨by omega,hstart.2.1,by exact_mod_cast hstart.2.2⟩)
      rw [if_neg hstart.1] at hlow
      rw [allChanges_changed hsame]
      exact ⟨hsorted,hlow⟩

theorem nodup_of_sorted {blocks : List ChangedBlock}
    (hsorted : blocks.Pairwise fun one two => one.s < two.s) (id : UInt32) :
    (blocks.map (ChangedBlock.key id)).Nodup := by
  apply List.pairwise_map.mpr
  apply hsorted.imp
  intro one two hlt hkey
  have hs : one.s = two.s := congrArg (fun key : VariableKey => key.2.1) hkey
  omega

/-- The scan stores the blocks that it reports, and leaves the local buffer with the first that
is too large. -/
theorem trackFrom_eq (pairs : List (UInt8 × UInt8)) (i : Nat) (s : Int) {varBlock : List UInt8}
    (hsize : varBlock.length ≤ varBlockSize) (st : CANCorrelator) :
    trackFrom memory id i s varBlock pairs st =
      if ∀ block ∈ allChanges i s varBlock pairs,block.bytes.length ≤ varBlockSize then
        ((changesFrom i s varBlock pairs).1.foldlM (insideStep memory id) st).bind fun st =>
          (changesFrom i s varBlock pairs).2.foldlM (atEndStep memory id) st
      else none := by
  induction pairs generalizing i s varBlock st with
  | nil =>
    rw [trackFrom,allChanges,changesFrom]
    by_cases hopen : varBlock.length ≠ 0
    · rw [if_pos hopen,if_pos hopen,if_pos]
      · simp [atEndStep]
      · intro block hblock
        rw [List.mem_singleton.mp hblock]
        exact hsize
    · rw [if_neg hopen,if_neg hopen,if_pos]
      · rfl
      · intro block hblock
        cases hblock
  | cons pair rest ih =>
    obtain ⟨one,two⟩ := pair
    by_cases hsame : one = two
    · subst hsame
      rw [trackFrom,if_neg (not_not.mpr rfl)]
      by_cases hopen : varBlock.length ≠ 0
      · rw [if_pos hopen,allChanges_close one hopen,changesFrom,if_neg (not_not.mpr rfl),
          if_pos hopen,List.foldlM_cons]
        simp only [Option.bind_eq_bind,Option.bind_assoc]
        have hstep : insideStep memory id st ⟨s,varBlock⟩ =
          st.storeInside memory id s varBlock := rfl
        rw [hstep]
        cases st.storeInside memory id s varBlock with
        | none => split_ifs <;> rfl
        | some st₁ =>
          simp only [Option.bind_some]
          rw [ih (i + 1) (-1) (Nat.zero_le _) st₁]
          apply if_congr _ rfl rfl
          rw [List.forall_mem_cons]
          exact (and_iff_right hsize).symm
      · have hnone : varBlock = [] := List.length_eq_zero_iff.mp (not_not.mp hopen)
        subst hnone
        rw [if_neg hopen,ih (i + 1) s hsize st,allChanges_skip,changesFrom,
          if_neg (not_not.mpr rfl),if_neg hopen]
    · rw [trackFrom,if_pos hsame,allChanges_changed hsame,changesFrom,if_pos hsame]
      have hlonger : (varBlock ++ [one]).length = varBlock.length + 1 := List.length_append
      by_cases hroom : varBlock.length < varBlockSize
      · rw [if_pos hroom]
        exact ih (i + 1) _ (by omega) st
      · obtain ⟨block,hblock,hle⟩ := @exists_of_open rest (i + 1) (if s = -1 then i else s)
          (varBlock ++ [one]) (by omega)
        rw [if_neg hroom,if_neg]
        intro hall
        have hsmall := hall block hblock
        omega

end Scan

/-- The two lists are in their bounds and no two variables have the same key. -/
structure Sound (st : CANCorrelator) : Prop where
  curFrames_le : st.curFrames ≤ canMaxFrames
  curVariables_le : st.curVariables ≤ canMaxVars
  nodup : st.keys.Nodup

/-- Every block that the event reports for a known variable is added to it. -/
def AddsToKnown (st : CANCorrelator) (ev : CorrelatorEvent) (st' : CANCorrelator) : Prop :=
  ∀ block ∈ st.reported ev,∀ (i : Nat) ve,st.variableList[i]? = some ve →
    ve.key = block.key ev.id →
      st'.variableList[i]? = some { ve with vData := ve.vData.addData block.bytes }

/-- The blocks of the event for which there is no variable. -/
def unknownBlocks (st : CANCorrelator) (ev : CorrelatorEvent) : List ChangedBlock :=
  Keyed.unknown (ChangedBlock.key ev.id) st.keys (st.reported ev)

/-- What an event must find: room for a new frame, no block that is too large, room and memory
for the new variables, and at the end of the frame no block of the first variable. -/
structure EventFits (memory : Nat → Option (List UInt8)) (st : CANCorrelator)
    (ev : CorrelatorEvent) : Prop where
  frame : Handled ev → st.similarFrame ev = none → st.curFrames < canMaxFrames
  size : ∀ block ∈ st.reported ev,block.bytes.length ≤ varBlockSize
  room : ∀ k < (st.unknownBlocks ev).length,
    st.curVariables + k < canMaxVars ∧ memory (st.curVariables + k) ≠ none
  first : ∀ block ∈ (st.changes ev).2,st.keys.head? ≠ some (block.key ev.id)

section Event

variable {memory : Nat → Option (List UInt8)} {st st' : CANCorrelator} {ev : CorrelatorEvent}

theorem event_of_not_handled (hev : ¬Handled ev) : st.event memory ev = some st := by
  rw [event]
  by_cases hID : ev.ID &&& 0x0f = canCallback
  · have hlong : ev.canData.length > canFrameMaxLen := by
      by_contra hle
      exact hev ⟨hID,not_lt.mp hle⟩
    rw [if_pos hID,if_pos hlong]
  · rw [if_neg hID]

theorem event_of_new (hev : Handled ev) (hnew : st.similarFrame ev = none)
    (hle : st.curFrames ≤ canMaxFrames) :
    st.event memory ev =
      if st.curFrames < canMaxFrames then
        some { st with frameList := st.frameList ++ [⟨ev.id,ev.canData⟩] }
      else none := by
  have hnone : ¬st.searchSimilarFrame ev.id ev.canData ≥ 0 := by
    intro hfound
    rw [similarFrame,if_pos hfound,List.getElem?_eq_none_iff] at hnew
    rw [searchSimilarFrame] at hfound hnew
    split at hnew
    · rename_i i hi
      obtain ⟨hlt,-⟩ := List.findIdx?_eq_some_iff_getElem.mp hi
      rw [Int.toNat_natCast] at hnew
      omega
    · rename_i hi
      rw [hi] at hfound
      exact absurd hfound (by decide)
  rw [event,if_pos hev.1,if_neg (not_lt.mpr hev.2)]
  simp only
  rw [if_neg hnone,if_pos hle]

/-- The frame at an index takes the bytes of the event. -/
def replaceFrame (index : Int) (ev : CorrelatorEvent) (st : CANCorrelator) : CANCorrelator :=
  { st with
    frameList := st.frameList.modify index.toNat fun fe => { fe with data := ev.canData } }

theorem event_of_similar {fe : FrameEntry} (hev : Handled ev)
    (hsimilar : st.similarFrame ev = some fe) :
    st.event memory ev =
      if ∀ block ∈ st.reported ev,block.bytes.length ≤ varBlockSize then
        (((st.changes ev).1.foldlM (insideStep memory ev.id) st).bind fun st₁ =>
          (st.changes ev).2.foldlM (atEndStep memory ev.id) st₁).map
            (replaceFrame (st.searchSimilarFrame ev.id ev.canData) ev)
      else none := by
  have hchanges : st.changes ev = changesFrom 0 (-1) [] (ev.canData.zip fe.data) := by
    rw [changes,if_pos hev,hsimilar]
  rw [similarFrame] at hsimilar
  split_ifs at hsimilar with hfound
  rw [event,if_pos hev.1,if_neg (not_lt.mpr hev.2)]
  simp only
  rw [if_pos hfound,hsimilar]
  simp only [Option.bind_eq_bind,Option.bind_some,Option.pure_def]
  rw [trackVariations,trackFrom_eq _ 0 (-1) (Nat.zero_le _),reported,hchanges,← allChanges]
  split_ifs
  · rw [Option.map_eq_bind]
    rfl
  · rfl

theorem reported_sorted (st : CANCorrelator) (ev : CorrelatorEvent) :
    ((st.reported ev).map (ChangedBlock.key ev.id)).Nodup := by
  apply nodup_of_sorted
  rw [reported,changes]
  split_ifs
  · split
    · exact (allChanges_sorted _ (.inl ⟨rfl,rfl⟩)).1
    · exact .nil
  · exact .nil

theorem changesFrom_snd (pairs : List (UInt8 × UInt8)) (i : Nat) (s : Int)
    (varBlock : List UInt8) :
    (changesFrom i s varBlock pairs).2 = [] ∨
      ∃ block,(changesFrom i s varBlock pairs).2 = [block] := by
  induction pairs generalizing i s varBlock with
  | nil =>
    rw [changesFrom]
    split_ifs
    · exact .inr ⟨_,rfl⟩
    · exact .inl rfl
  | cons pair rest ih =>
    obtain ⟨one,two⟩ := pair
    rw [changesFrom]
    split_ifs <;> exact ih _ _ _

/-- At most one block reaches the end of the frame. -/
theorem changes_snd (st : CANCorrelator) (ev : CorrelatorEvent) :
    (st.changes ev).2 = [] ∨ ∃ block,(st.changes ev).2 = [block] := by
  rw [changes]
  split_ifs
  · split
    · exact changesFrom_snd _ _ _ _
    · exact .inl rfl
  · exact .inl rfl

/-- The keys after the blocks inside a frame. -/
theorem keys_after_inside {st₁ : CANCorrelator} (hnodup : st.keys.Nodup)
    (hinside : (st.changes ev).1.foldlM (insideStep memory ev.id) st = some st₁) :
    st₁.keys.Nodup ∧ st₁.keys = st.keys ++
      (Keyed.unknown (ChangedBlock.key ev.id) st.keys (st.changes ev).1).map
        (ChangedBlock.key ev.id) := by
  rw [storeAll_eq _ hnodup] at hinside
  obtain ⟨vs,hplaced,rfl⟩ := Option.map_eq_some_iff.mp hinside
  have hitems : ((st.changes ev).1.map (ChangedBlock.key ev.id)).Nodup := by
    have hall := reported_sorted st ev
    rw [reported,List.map_append] at hall
    exact (List.nodup_append.mp hall).1
  exact ⟨Keyed.Scheme.nodup_of_placeAll hplaced hnodup,
    (Keyed.Scheme.placeAll_spec hitems hplaced).1⟩

/-- The first variable is the one of the block at the end of the frame exactly when it was so
before the event. -/
theorem head_after_inside {st₁ : CANCorrelator} {block : ChangedBlock} (hnodup : st.keys.Nodup)
    (hinside : (st.changes ev).1.foldlM (insideStep memory ev.id) st = some st₁)
    (hlast : block ∈ (st.changes ev).2) :
    st₁.keys.head? = some (block.key ev.id) ↔ st.keys.head? = some (block.key ev.id) := by
  rw [(keys_after_inside hnodup hinside).2]
  cases hkeys : st.keys with
  | cons key keys => rfl
  | nil =>
    refine iff_of_false (fun hhead => ?_) (by simp)
    have hall := reported_sorted st ev
    rw [reported,List.map_append] at hall
    have hdisjoint := (List.nodup_append.mp hall).2.2
    rw [List.nil_append] at hhead
    obtain ⟨other,hother,hkey⟩ := List.mem_map.mp (List.mem_of_head? hhead)
    exact hdisjoint _ (List.mem_map_of_mem (List.mem_filter.mp hother).1) _
      (List.mem_map_of_mem hlast) hkey

/-- When the last block is not one of the first variable, all blocks are placed alike. -/
theorem stores_eq_placeAll (hnodup : st.keys.Nodup)
    (hfirst : ∀ block ∈ (st.changes ev).2,st.keys.head? ≠ some (block.key ev.id)) :
    (((st.changes ev).1.foldlM (insideStep memory ev.id) st).bind fun st₁ =>
      (st.changes ev).2.foldlM (atEndStep memory ev.id) st₁) =
        ((scheme memory ev.id).placeAll st.variableList (st.reported ev)).map fun vs =>
          { st with variableList := vs } := by
  rw [← storeAll_eq _ hnodup,reported,List.foldlM_append]
  cases hinside : (st.changes ev).1.foldlM (insideStep memory ev.id) st with
  | none => rfl
  | some st₁ =>
    simp only [Option.bind_some,Option.bind_eq_bind]
    rcases changes_snd st ev with hnone | ⟨block,hone⟩
    · rw [hnone]
      rfl
    · have hlast : block ∈ (st.changes ev).2 := by
        rw [hone]
        exact List.mem_singleton_self block
      have hhead := mt (head_after_inside hnodup hinside hlast).mp (hfirst block hlast)
      have hsame : atEndStep memory ev.id st₁ block = insideStep memory ev.id st₁ block :=
        storeAtEnd_eq_storeInside hhead
      rw [hone,List.foldlM_cons,List.foldlM_cons,hsame]
      rfl

/-- Where the last block is one of the first variable, its key is there twice. -/
theorem not_nodup_of_first {block : ChangedBlock} (hnodup : st.keys.Nodup)
    (hlast : block ∈ (st.changes ev).2) (hhead : st.keys.head? = some (block.key ev.id))
    (hstores : (((st.changes ev).1.foldlM (insideStep memory ev.id) st).bind fun st₁ =>
      (st.changes ev).2.foldlM (atEndStep memory ev.id) st₁) = some st') :
    ¬st'.keys.Nodup := by
  obtain ⟨st₁,hinside,hend⟩ := Option.bind_eq_some_iff.mp hstores
  have hhead₁ := (head_after_inside hnodup hinside hlast).mpr hhead
  rcases changes_snd st ev with hnone | ⟨other,hone⟩
  · rw [hnone] at hlast
    cases hlast
  · rw [hone] at hlast hend
    cases List.mem_singleton.mp hlast
    rw [List.foldlM_cons] at hend
    obtain ⟨st₂,hstore,hlast'⟩ := Option.bind_eq_some_iff.mp hend
    cases hlast'
    rw [keys_of_storeAtEnd_first hhead₁ hstore]
    intro htwice
    exact (List.nodup_append.mp htwice).2.2 _ (List.mem_of_head? hhead₁) _
      (List.mem_singleton_self _) rfl

/-- The room that the table needs is the one in the list and the memory for the objects. -/
theorem room_iff : (scheme memory ev.id).Room st.variableList (st.reported ev) ↔
    ∀ k < (st.unknownBlocks ev).length,
      st.curVariables + k < canMaxVars ∧ memory (st.curVariables + k) ≠ none := by
  have hnew (n : Nat) (block : ChangedBlock) : ((scheme memory ev.id).new n block).isSome = true ↔
      n < canMaxVars ∧ memory n ≠ none := by
    simp only [scheme]
    split_ifs with hlt
    · rw [Option.isSome_map,Option.isSome_iff_ne_none]
      exact (and_iff_right hlt).symm
    · exact iff_of_false (by simp) fun h => hlt h.1
  constructor
  · intro hroom k hk
    exact (hnew _ _).mp (hroom k _ (List.getElem?_eq_getElem hk))
  · intro hroom k block hblock
    obtain ⟨hk,-⟩ := List.getElem?_eq_some_iff.mp hblock
    exact (hnew _ _).mpr (hroom k hk)

theorem changes_of_no_similar (hev : ¬Handled ev ∨ st.similarFrame ev = none) :
    st.changes ev = ([],[]) := by
  rw [changes]
  split_ifs with h
  · rcases hev with hnot | hnone
    · exact absurd h hnot
    · rw [hnone]
  · rfl

/-- An event that stores no block fits as far as blocks are concerned. -/
theorem eventFits_of_no_changes (hchanges : st.changes ev = ([],[])) :
    EventFits memory st ev ↔
      (Handled ev → st.similarFrame ev = none → st.curFrames < canMaxFrames) := by
  have hreported : st.reported ev = [] := by rw [reported,hchanges]; rfl
  constructor
  · exact EventFits.frame
  · intro hframe
    refine ⟨hframe,?_,?_,?_⟩
    · intro block hblock
      rw [hreported] at hblock
      cases hblock
    · intro k hk
      rw [unknownBlocks,hreported] at hk
      exact absurd hk (Nat.not_lt_zero k)
    · intro block hblock
      rw [hchanges] at hblock
      cases hblock

theorem addsToKnown_of_no_changes (hchanges : st.changes ev = ([],[])) (st' : CANCorrelator) :
    AddsToKnown st ev st' := by
  intro block hblock
  rw [reported,hchanges] at hblock
  cases hblock

/-- The step on a frame that the correlator does not look at or has not seen. -/
theorem eventFits_iff_of_no_similar (hsound : st.Sound)
    (hev : ¬Handled ev ∨ st.similarFrame ev = none) :
    (∃ st',st.event memory ev = some st' ∧ st'.Sound ∧ AddsToKnown st ev st') ↔
      EventFits memory st ev := by
  have hchanges := changes_of_no_similar hev
  rw [eventFits_of_no_changes hchanges]
  by_cases hhandled : Handled ev
  · have hnew : st.similarFrame ev = none := hev.resolve_left (not_not.mpr hhandled)
    rw [event_of_new hhandled hnew hsound.curFrames_le]
    by_cases hroom : st.curFrames < canMaxFrames
    · rw [if_pos hroom]
      refine iff_of_true ⟨_,rfl,⟨?_,hsound.curVariables_le,hsound.nodup⟩,
        addsToKnown_of_no_changes hchanges _⟩ fun _ _ => hroom
      rw [curFrames,List.length_append,List.length_singleton]
      exact hroom
    · rw [if_neg hroom]
      refine iff_of_false ?_ fun hfits => hroom (hfits hhandled hnew)
      rintro ⟨st',hnone,-⟩
      cases hnone
  · rw [event_of_not_handled hhandled]
    exact iff_of_true ⟨st,rfl,hsound,addsToKnown_of_no_changes hchanges st⟩
      fun h => absurd h hhandled

theorem sound_of_placeAll {vs : List VariableEntry} (index : Int) (hsound : st.Sound)
    (hroom : ∀ k < (st.unknownBlocks ev).length,
      st.curVariables + k < canMaxVars ∧ memory (st.curVariables + k) ≠ none)
    (hplaced : (scheme memory ev.id).placeAll st.variableList (st.reported ev) = some vs) :
    (replaceFrame index ev { st with variableList := vs }).Sound := by
  have hkeys := (Keyed.Scheme.placeAll_spec (reported_sorted st ev) hplaced).1
  have hlength : vs.length = st.curVariables + (st.unknownBlocks ev).length := by
    have hcount := congrArg List.length hkeys
    rw [Keyed.Scheme.keys,Keyed.Scheme.keys,List.length_append,List.length_map,List.length_map,
      List.length_map] at hcount
    exact hcount
  refine ⟨?_,?_,Keyed.Scheme.nodup_of_placeAll hplaced hsound.nodup⟩
  · rw [replaceFrame,curFrames,List.length_modify]
    exact hsound.curFrames_le
  · rw [replaceFrame,curVariables,hlength]
    cases hcount : (st.unknownBlocks ev).length with
    | zero => exact hsound.curVariables_le
    | succ n => exact (hroom n (by omega)).1

/-- The step on a frame that resembles one of the list. -/
theorem eventFits_iff_of_similar {fe : FrameEntry} (hsound : st.Sound) (hev : Handled ev)
    (hsimilar : st.similarFrame ev = some fe) :
    (∃ st',st.event memory ev = some st' ∧ st'.Sound ∧ AddsToKnown st ev st') ↔
      EventFits memory st ev := by
  rw [event_of_similar hev hsimilar]
  have hitems := reported_sorted st ev
  constructor
  · rintro ⟨st',hevent,hsound',-⟩
    split_ifs at hevent with hsize
    obtain ⟨st₁,hstores,rfl⟩ := Option.map_eq_some_iff.mp hevent
    have hfirst : ∀ block ∈ (st.changes ev).2,st.keys.head? ≠ some (block.key ev.id) := by
      intro block hblock hhead
      exact not_nodup_of_first hsound.nodup hblock hhead hstores hsound'.nodup
    rw [stores_eq_placeAll hsound.nodup hfirst] at hstores
    obtain ⟨vs,hplaced,-⟩ := Option.map_eq_some_iff.mp hstores
    refine ⟨fun _ hnone => ?_,hsize,?_,hfirst⟩
    · rw [hsimilar] at hnone
      cases hnone
    · exact room_iff.mp ((Keyed.Scheme.exists_placeAll_iff hitems).mp ⟨vs,hplaced⟩)
  · intro hfits
    obtain ⟨vs,hplaced⟩ := (Keyed.Scheme.exists_placeAll_iff hitems).mpr (room_iff.mpr hfits.room)
    have hadd := (Keyed.Scheme.placeAll_spec hitems hplaced).2.2
    rw [if_pos hfits.size,stores_eq_placeAll hsound.nodup hfits.first,hplaced]
    refine ⟨_,rfl,sound_of_placeAll _ hsound hfits.room hplaced,?_⟩
    intro block hblock i ve hve hkey
    exact hadd i ve hve block hblock hkey

theorem eventFits_iff (hsound : st.Sound) :
    (∃ st',st.event memory ev = some st' ∧ st'.Sound ∧ AddsToKnown st ev st') ↔
      EventFits memory st ev := by
  by_cases hev : Handled ev
  · cases hsimilar : st.similarFrame ev with
    | none => exact eventFits_iff_of_no_similar hsound (.inr hsimilar)
    | some fe => exact eventFits_iff_of_similar hsound hev hsimilar
  · exact eventFits_iff_of_no_similar hsound (.inl hev)

end Event

/-- Three frames whose last byte alone changes. -/
def lastByteChanges : List CorrelatorEvent :=
  [⟨canCallback,1,[0,0,0,0,0,0,0,0]⟩,⟨canCallback,1,[0,0,0,0,0,0,0,1]⟩,
    ⟨canCallback,1,[0,0,0,0,0,0,0,2]⟩]

end CANCorrelator

end Pyrn.Can
