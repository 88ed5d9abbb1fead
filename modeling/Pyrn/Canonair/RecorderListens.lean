import Pyrn.Can.CallBackTableExact
import Pyrn.Can.Dispatch
import Pyrn.Can.Recorder
import Pyrn.Canonair.ConfigLoop
import Mathlib.Data.List.Nodup

/-!
# The recorders of a configuration

The parse loop builds a recorder on every calculator that it keeps, and the recorder registers
for all messages. There may be 32 recorders, but the callback table has room for ten.
-/

namespace Pyrn.Canonair

open Pyrn.Can

/-- What the allocator hands out, and the memory of the callback table: the calculator of each
round, and for each recorder its address and its two blocks. -/
structure Allocations where
  calculator : Nat → CANRecorderCalculator
  self : Nat → UInt32
  tmp : Nat → List UInt32
  dataResult : Nat → List UInt8
  idCbTable : List UInt8
  self_inj : ∀ i j, i < nMaxRecs → j < nMaxRecs → self i = self j → i = j
  tmp_length : ∀ i, (tmp i).length = canFramesToWait
  dataResult_length : ∀ i, (dataResult i).length = netFrameAllocSz
  idCbTable_length : idCbTable.length = sizeofIdCbEntry * canSimultaneousCbs

/-- The loop with the recorders and the interface they register with. -/
structure SetupState where
  config : ConfigState
  recs : List CANRecorder
  canItf : CallBacks
  deriving DecidableEq, Repr

def SetupState.start (memory : Allocations) : SetupState :=
  ⟨⟨1,[],[]⟩,[],CallBacks.new memory.idCbTable⟩

/-- One round: a recorder is built on the calculator if it is kept. -/
def setupRound (config : Memory) (memory : Allocations) (st : SetupState) :
    Option SetupState := do
  let next ← configRound config (memory.calculator st.config.starts.length) st.config
  let currRec := st.recs.length
  match next.recCalcs[currRec]? with
  | none => return { st with config := next }
  | some calculator =>
      let recorder ← CANRecorder.new calculator (memory.tmp currRec) (memory.dataResult currRec)
      let canItf := st.canItf.addCallBackForId canBusDontCare canIdPromiscuousMode
        (memory.self currRec)
      return ⟨next,st.recs ++ [recorder],canItf⟩

/-- The parse loop on `l` received bytes. -/
def parseSetup (config : Memory) (l : Int) (memory : Allocations) :
    Nat → SetupState → Option SetupState
  | 0, _ => none
  | fuel + 1, st =>
      if st.config.offset < l then
        if st.config.recCalcs.length < nMaxRecs then do
          let next ← setupRound config memory st
          parseSetup config l memory fuel next
        else some st
      else some st

/-- The entry of a recorder in the callback table. -/
def listener (memory : Allocations) (i : Nat) : IdCbEntry :=
  ⟨canBusDontCare,canIdPromiscuousMode,memory.self i⟩

/-- The objects whose `event` is called for a message, in order. -/
def deliveries (bus : UInt8) (msg : CANMessage) (canItf : CallBacks) : List UInt32 :=
  (dispatchCANMessage bus msg canItf.live).map fun i => (canItf.entryAt i).cb

/-- Every recorder gets the messages with its address exactly once. -/
def RecordersListen (memory : Allocations) (st : SetupState) : Prop :=
  ∀ bus msg i recorder, st.recs[i]? = some recorder →
    recorder.calculator.calcHeader.rxAddr = msg.id →
      (deliveries bus msg st.canItf).count (memory.self i) = 1

/-- The invariant of the loop: one new recorder for each calculator, and the first ten of them
in the table. -/
structure SetupState.Sound (memory : Allocations) (st : SetupState) : Prop where
  calculators : st.recs.map CANRecorder.calculator = st.config.recCalcs
  recs_length : st.recs.length ≤ nMaxRecs
  recs_sound : ∀ recorder ∈ st.recs, recorder.Sound
  learning : ∀ recorder ∈ st.recs, recorder.lStruct.isLearning = true
  wellFormed : st.canItf.WellFormed
  live : st.canItf.live =
    (List.range (min st.recs.length canSimultaneousCbs)).map (listener memory)

section Calculators

/-- What a round does to the calculators: it keeps them, or adds a valid one. -/
theorem configRound_recCalcs {config : Memory} {fresh : CANRecorderCalculator}
    {st next : ConfigState} (hround : configRound config fresh st = some next) :
    next.recCalcs = st.recCalcs ∨
      ∃ calculator,calculator.Valid ∧ next.recCalcs = st.recCalcs ++ [calculator] := by
  rw [configRound] at hround
  obtain ⟨⟨calcData,offset⟩,-,hround⟩ := Option.bind_eq_some_iff.mp hround
  cases hround
  simp only
  split
  · rename_i hready
    exact Or.inr ⟨_,CANRecorderCalculator.valid_of_ready fresh hready,rfl⟩
  · exact Or.inl rfl

end Calculators

section Setup

variable {config : Memory} {l : Int} {memory : Allocations} {st next : SetupState}

theorem start_sound (memory : Allocations) : (SetupState.start memory).Sound memory :=
  ⟨rfl,Nat.zero_le _,fun _ hmem => absurd hmem List.not_mem_nil,
    fun _ hmem => absurd hmem List.not_mem_nil,⟨memory.idCbTable_length,Nat.zero_le _⟩,rfl⟩

/-- A recorder that registers comes into the table while there is room. -/
theorem add_listener (hst : st.Sound memory) :
    let canItf := st.canItf.addCallBackForId canBusDontCare canIdPromiscuousMode
      (memory.self st.recs.length)
    canItf.WellFormed ∧ canItf.live =
      (List.range (min (st.recs.length + 1) canSimultaneousCbs)).map (listener memory) := by
  obtain ⟨hlive,hwellFormed⟩ := add_live hst.wellFormed canBusDontCare canIdPromiscuousMode
    (memory.self st.recs.length)
  refine ⟨hwellFormed,?_⟩
  rw [hlive,tableCall,hst.live,List.length_map,List.length_range]
  by_cases hroom : st.recs.length < canSimultaneousCbs
  · rw [if_pos (by omega),min_eq_left (le_of_lt hroom),min_eq_left hroom,List.range_succ,
      List.map_append]
    rfl
  · rw [if_neg (by omega),min_eq_right (by omega),min_eq_right (by omega)]

/-- A round succeeds when its configuration round does, and keeps the invariant. -/
theorem setupRound_sound (hst : st.Sound memory) (hroom : st.config.recCalcs.length < nMaxRecs)
    {config' : ConfigState} (hround : configRound config
      (memory.calculator st.config.starts.length) st.config = some config') :
    ∃ next,setupRound config memory st = some next ∧ next.config = config' ∧
      next.Sound memory := by
  have hlength : st.recs.length = st.config.recCalcs.length := by
    rw [← hst.calculators,List.length_map]
  rw [setupRound,hround]
  simp only [Option.bind_eq_bind,Option.bind_some]
  rcases configRound_recCalcs hround with hkept | ⟨calculator,hvalid,hadded⟩
  · have hnone : config'.recCalcs[st.recs.length]? = none := by
      rw [hkept,hlength]
      exact List.getElem?_eq_none (le_refl _)
    rw [hnone]
    exact ⟨_,rfl,rfl,⟨hst.calculators.trans hkept.symm,hst.recs_length,hst.recs_sound,
      hst.learning,hst.wellFormed,hst.live⟩⟩
  · have hsome : config'.recCalcs[st.recs.length]? = some calculator := by
      rw [hadded,hlength]
      exact List.getElem?_concat_length
    obtain ⟨recorder,hnew,hsound,hcalculator,hlearning⟩ := CANRecorder.new_sound hvalid
      (memory.tmp_length st.recs.length) (memory.dataResult_length st.recs.length)
    obtain ⟨hwellFormed,hlive⟩ := add_listener hst
    rw [hsome]
    simp only [hnew,Option.bind_some]
    refine ⟨_,rfl,rfl,⟨?_,?_,?_,?_,hwellFormed,?_⟩⟩
    · simp only [List.map_append,List.map_singleton,hst.calculators,hcalculator,hadded]
    · rw [List.length_append,List.length_singleton]
      omega
    · intro other hmem
      rcases List.mem_append.mp hmem with hold | hmem
      · exact hst.recs_sound other hold
      · rw [List.mem_singleton.mp hmem]
        exact hsound
    · intro other hmem
      rcases List.mem_append.mp hmem with hold | hmem
      · exact hst.learning other hold
      · rw [List.mem_singleton.mp hmem,hlearning]
    · simp only [List.length_append,List.length_singleton]
      exact hlive

/-- The loop builds recorders for every configuration that it accepts, and keeps the
invariant. -/
theorem parseSetup_sound {fuel : Nat} (hst : st.Sound memory) {config' : ConfigState}
    (hparse : parseConfig config l memory.calculator fuel st.config = some config') :
    ∃ next,parseSetup config l memory fuel st = some next ∧ next.config = config' ∧
      next.Sound memory := by
  induction fuel generalizing st with
  | zero => cases hparse
  | succ fuel ih =>
      rw [parseConfig] at hparse
      rw [parseSetup]
      by_cases hmore : st.config.offset < l
      · rw [if_pos hmore] at hparse ⊢
        by_cases hroom : st.config.recCalcs.length < nMaxRecs
        · rw [if_pos hroom] at hparse ⊢
          obtain ⟨config₁,hround,hrest⟩ := Option.bind_eq_some_iff.mp hparse
          obtain ⟨st₁,hsetup,rfl,hsound⟩ := setupRound_sound hst hroom hround
          rw [hsetup]
          exact ih hsound hrest
        · rw [if_neg hroom] at hparse ⊢
          cases hparse
          exact ⟨st,rfl,rfl,hst⟩
      · rw [if_neg hmore] at hparse ⊢
        cases hparse
        exact ⟨st,rfl,rfl,hst⟩

end Setup

section Deliveries

variable {bus : UInt8} {msg : CANMessage} {table : List IdCbEntry}

/-- Where everybody listens to all messages, everybody is called once. -/
theorem dispatchFrom_promiscuous (hall : ∀ entry ∈ table, Promiscuous entry)
    (hid : msg.id ≠ canIdPromiscuousMode) (i : Nat) :
    dispatchFrom bus msg i table = List.range' i table.length := by
  induction table generalizing i with
  | nil => rfl
  | cons first rest ih =>
      have hfirst : Promiscuous first := hall first List.mem_cons_self
      have hdeaf : ¬Listens bus msg first := fun hlistens => hid (hlistens.2.symm.trans hfirst)
      rw [dispatchFrom,if_pos (show first.id = canIdPromiscuousMode from hfirst),if_neg hdeaf,
        ih fun entry hmem => hall entry (List.mem_cons_of_mem first hmem)]
      rfl

/-- A message that carries the reserved identifier goes twice to the first listener. -/
theorem dispatchFrom_reserved {first : IdCbEntry} (hfirst : Promiscuous first)
    (hbus : first.bus = canBusDontCare) (hid : msg.id = canIdPromiscuousMode) (i : Nat) :
    dispatchFrom bus msg i (first :: table) = [i,i] := by
  have hlistens : Listens bus msg first := by
    refine ⟨Or.inr ?_,hfirst.trans hid.symm⟩
    rw [hbus]
    rfl
  rw [dispatchFrom,if_pos (show first.id = canIdPromiscuousMode from hfirst),if_pos hlistens]
  rfl

variable {memory : Allocations} {st : SetupState}

theorem promiscuous_listener {n : Nat} :
    ∀ entry ∈ (List.range n).map (listener memory), Promiscuous entry := by
  intro entry hmem
  obtain ⟨i,-,rfl⟩ := List.mem_map.mp hmem
  rfl

/-- The recorders that a message reaches when there are `n` of them. -/
def reachedBy (n : Nat) (msg : CANMessage) : List Nat :=
  if msg.id = canIdPromiscuousMode ∧ 0 < n then [0,0] else List.range (min n canSimultaneousCbs)

theorem dispatch_recorders (hst : st.Sound memory) :
    dispatchCANMessage bus msg st.canItf.live = reachedBy st.recs.length msg := by
  rw [dispatchCANMessage,hst.live,reachedBy]
  by_cases hid : msg.id = canIdPromiscuousMode
  · rcases Nat.eq_zero_or_pos st.recs.length with hnone | hpos
    · rw [if_neg (by omega),hnone]
      rfl
    · obtain ⟨n,hn⟩ : ∃ n,min st.recs.length canSimultaneousCbs = n + 1 :=
        ⟨min st.recs.length canSimultaneousCbs - 1,by rw [canSimultaneousCbs]; omega⟩
      have hfirst : Promiscuous (listener memory 0) := rfl
      rw [if_pos ⟨hid,hpos⟩,hn,List.range_succ_eq_map,List.map_cons]
      exact dispatchFrom_reserved hfirst rfl hid 0
  · rw [if_neg (fun h => hid h.1),dispatchFrom_promiscuous promiscuous_listener hid,
      List.length_map,List.length_range,List.range_eq_range']

theorem mem_reachedBy {n j : Nat} (hj : j ∈ reachedBy n msg) : j < min n canSimultaneousCbs := by
  rw [reachedBy] at hj
  split at hj
  · rename_i hreserved
    simp only [List.mem_cons,List.not_mem_nil,or_false,or_self] at hj
    rw [hj,canSimultaneousCbs]
    omega
  · exact List.mem_range.mp hj

theorem entryAt_listener (hst : st.Sound memory) {i : Nat}
    (hi : i < min st.recs.length canSimultaneousCbs) :
    st.canItf.entryAt i = listener memory i := by
  have hlength := congrArg List.length hst.live
  rw [CallBacks.live,List.length_map,List.length_map,List.length_range,List.length_range]
    at hlength
  have hentry := congrArg (fun entries => entries[i]?) hst.live
  simp only [CallBacks.live,List.getElem?_map] at hentry
  rw [List.getElem?_range (by omega),List.getElem?_range hi] at hentry
  exact Option.some.inj hentry

theorem deliveries_eq (hst : st.Sound memory) :
    deliveries bus msg st.canItf = (reachedBy st.recs.length msg).map memory.self := by
  rw [deliveries,dispatch_recorders hst]
  apply List.map_congr_left
  intro i hi
  rw [entryAt_listener hst (mem_reachedBy hi)]
  rfl

/-- A message with an ordinary identifier reaches each of the first ten recorders once. -/
theorem count_deliveries (hst : st.Sound memory) (hid : msg.id ≠ canIdPromiscuousMode) {i : Nat}
    (hi : i < st.recs.length) : (deliveries bus msg st.canItf).count (memory.self i) =
      if i < canSimultaneousCbs then 1 else 0 := by
  have hmany := hst.recs_length
  rw [deliveries_eq hst,reachedBy,if_neg fun h => hid h.1]
  by_cases hroom : i < canSimultaneousCbs
  · rw [if_pos hroom]
    apply List.count_eq_one_of_mem
    · apply List.Nodup.map_on _ List.nodup_range
      intro j hj k hk heq
      rw [List.mem_range] at hj hk
      exact memory.self_inj j k (by omega) (by omega) heq
    · exact List.mem_map.mpr ⟨i,List.mem_range.mpr (by omega),rfl⟩
  · rw [if_neg hroom,List.count_eq_zero]
    intro hmem
    obtain ⟨j,hj,heq⟩ := List.mem_map.mp hmem
    rw [List.mem_range] at hj
    have hsame := memory.self_inj j i (by omega) (by omega) heq
    omega

/-- The reserved identifier reaches nobody once. -/
theorem count_deliveries_reserved (hst : st.Sound memory)
    (hid : msg.id = canIdPromiscuousMode) {i : Nat} (hi : i < st.recs.length) :
    (deliveries bus msg st.canItf).count (memory.self i) ≠ 1 := by
  rw [deliveries_eq hst,reachedBy,if_pos ⟨hid,by omega⟩]
  by_cases hself : memory.self 0 = memory.self i <;> simp [hself]

theorem recordersListen_iff (hst : st.Sound memory) : RecordersListen memory st ↔
    st.recs.length ≤ canSimultaneousCbs ∧
      ∀ recorder ∈ st.recs, recorder.calculator.calcHeader.rxAddr ≠ canIdPromiscuousMode := by
  constructor
  · intro hlisten
    have hordinary : ∀ recorder ∈ st.recs,
        recorder.calculator.calcHeader.rxAddr ≠ canIdPromiscuousMode := by
      intro recorder hmem hreserved
      obtain ⟨i,hi⟩ := List.mem_iff_getElem?.mp hmem
      have honce := hlisten 1 { CANMessage.empty with id := canIdPromiscuousMode } i recorder hi
        hreserved
      exact count_deliveries_reserved hst rfl (List.getElem?_eq_some_iff.mp hi).1 honce
    refine ⟨?_,hordinary⟩
    by_contra hmany
    have hlast : canSimultaneousCbs < st.recs.length := by omega
    have hget := List.getElem?_eq_getElem hlast
    have honce := hlisten 1 { CANMessage.empty with
      id := st.recs[canSimultaneousCbs].calculator.calcHeader.rxAddr } _ _ hget rfl
    rw [count_deliveries hst (hordinary _ (List.getElem_mem hlast)) hlast,
      if_neg (lt_irrefl _)] at honce
    cases honce
  · rintro ⟨hfew,hordinary⟩ bus msg i recorder hi haddr
    have hid : msg.id ≠ canIdPromiscuousMode := by
      rw [← haddr]
      exact hordinary recorder (List.mem_of_getElem? hi)
    have hlt := (List.getElem?_eq_some_iff.mp hi).1
    rw [count_deliveries hst hid hlt,if_pos (by omega)]

end Deliveries

/-- All recorders of an accepted configuration listen exactly when the callback table has room
for them and none of them has the reserved identifier as its address. -/
theorem recorders_listen_exact (config : Memory) (l : Int) (memory : Allocations) (fuel : Nat)
    (accepted : ConfigState)
    (hparse : parseConfig config l memory.calculator fuel ⟨1,[],[]⟩ = some accepted) :
    ∃ st,parseSetup config l memory fuel (SetupState.start memory) = some st ∧
      st.config = accepted ∧ (RecordersListen memory st ↔
        accepted.recCalcs.length ≤ canSimultaneousCbs ∧
          ∀ calculator ∈ accepted.recCalcs,
            calculator.calcHeader.rxAddr ≠ canIdPromiscuousMode) := by
  obtain ⟨st,hsetup,rfl,hsound⟩ := parseSetup_sound (start_sound memory) hparse
  refine ⟨st,hsetup,rfl,?_⟩
  rw [recordersListen_iff hsound,← hsound.calculators,List.length_map]
  simp only [List.forall_mem_map]

section

/-- So many recorders for the addresses 0x100, 0x101 and so on, each of one byte. -/
def oneByteRecorders (n : Nat) : List UInt8 :=
  UInt8.ofNat n :: (List.range n).flatMap fun i => [UInt8.ofNat i,1,0,0,1,0,1]

/-- A heap that hands out the numbers of the recorders as their addresses. -/
def clearedMemory : Allocations where
  calculator := fun _ => ⟨false,false,⟨0,0,0,0,0,0,0⟩,[]⟩
  self := UInt32.ofNat
  tmp := fun _ => List.replicate canFramesToWait 0
  dataResult := fun _ => List.replicate netFrameAllocSz 0
  idCbTable := List.replicate (sizeofIdCbEntry * canSimultaneousCbs) 0
  self_inj := by
    intro i j hi hj heq
    rw [nMaxRecs] at hi hj
    have hsmall (k : Nat) (hk : k < 32) : (UInt32.ofNat k).toNat = k :=
      UInt32.toNat_ofNat_of_lt' (by rw [UInt32.size]; omega)
    have hself := congrArg UInt32.toNat heq
    rwa [hsmall i hi,hsmall j hj] at hself
  tmp_length := fun _ => List.length_replicate
  dataResult_length := fun _ => List.length_replicate
  idCbTable_length := List.length_replicate

/-- A received configuration, with zeros behind it. -/
def received (bytes : List UInt8) : Memory := fun i => bytes.getD i 0

theorem recorders_listen_exact_two : ∃ accepted,
    parseConfig (received (oneByteRecorders 2)) 15 clearedMemory.calculator 40 ⟨1,[],[]⟩ =
      some accepted ∧ ∃ st,parseSetup (received (oneByteRecorders 2)) 15 clearedMemory 40
        (SetupState.start clearedMemory) = some st ∧ st.config = accepted ∧
          (RecordersListen clearedMemory st ↔ accepted.recCalcs.length ≤ canSimultaneousCbs ∧
            ∀ calculator ∈ accepted.recCalcs,
              calculator.calcHeader.rxAddr ≠ canIdPromiscuousMode) := by
  have hsome : (parseConfig (received (oneByteRecorders 2)) 15 clearedMemory.calculator 40
      ⟨1,[],[]⟩).isSome = true := by decide +kernel
  obtain ⟨accepted,haccepted⟩ := Option.isSome_iff_exists.mp hsome
  exact ⟨accepted,haccepted,recorders_listen_exact _ _ clearedMemory 40 accepted haccepted⟩

/-- The eleventh recorder does not get into the table. -/
theorem elevenRecorders_not_listen :
    ∃ st,parseSetup (received (oneByteRecorders 11)) 78 clearedMemory 40
      (SetupState.start clearedMemory) = some st ∧ st.recs.length = 11 ∧
        ¬RecordersListen clearedMemory st := by
  have hmany : (parseConfig (received (oneByteRecorders 11)) 78 clearedMemory.calculator 40
      ⟨1,[],[]⟩).map (fun accepted => accepted.recCalcs.length) = some 11 := by decide +kernel
  obtain ⟨accepted,haccepted,hlength⟩ := Option.map_eq_some_iff.mp hmany
  obtain ⟨st,hsetup,rfl,hsound⟩ := parseSetup_sound (start_sound clearedMemory) haccepted
  have hrecs : st.recs.length = 11 := by
    rw [← hlength,← hsound.calculators,List.length_map]
  refine ⟨st,hsetup,hrecs,?_⟩
  intro hlisten
  have hfew := ((recordersListen_iff hsound).mp hlisten).1
  rw [hrecs,canSimultaneousCbs] at hfew
  omega

end

end Pyrn.Canonair
