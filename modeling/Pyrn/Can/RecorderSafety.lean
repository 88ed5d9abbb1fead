import Pyrn.Can.Recorder
import Pyrn.Framework.Run

/-!
# The memory of the recorder

A recorder is driven by frames and captures in any order. It never leaves its two blocks or the
data of a frame, it always leaves room behind its header, and the block of the samples is not
used after it has been freed.
-/

namespace Pyrn.Can

open Transition

inductive RecorderCall
  | event (ID : UInt32) (msg : CANMessage) (tick : UInt32)
  | capture (len : Nat)
  deriving DecidableEq, Repr

/-- What `event` does with the block of the samples. -/
inductive TmpUse
  | store (index : Nat)
  | sum
  | free
  deriving DecidableEq, Repr

/-- An index inside the block. -/
def TmpUse.Inside : TmpUse → Prop
  | .store index => index < canFramesToWait
  | .sum => True
  | .free => True

/-- A use of the block is inside of it, and the block has not been freed before. -/
def TmpUse.Allowed (before : List TmpUse) (use : TmpUse) : Prop :=
  use.Inside ∧ TmpUse.free ∉ before

namespace CANRecorder

/-- One call: what a capture gives out, and the recorder behind it. -/
def call (st : CANRecorder) : RecorderCall → Option (List UInt8 × CANRecorder)
  | .event ID msg tick => (st.event ID msg tick).map fun next => ([],next)
  | .capture len => st.capture len

/-- The uses of the block of the samples by a call, in order. -/
def tmpUses (st : CANRecorder) : RecorderCall → List TmpUse
  | .event ID msg _ =>
      if st.Hears ID msg ∧ st.lStruct.isLearning = true then
        if st.lStruct.nTicks = 0 then [.sum,.free]
        else if st.lStruct.oldTick = 0 then []
        else [.store (st.lStruct.nTicks - 1)]
      else []
  | .capture _ => []

/-- One call with its uses of the block of the samples. -/
def callUses (st : CANRecorder) (input : RecorderCall) : Option (List TmpUse × CANRecorder) :=
  (st.call input).map fun result => (st.tmpUses input,result.2)

variable {st : CANRecorder} {input : RecorderCall}

theorem call_sound (hst : st.Sound) (input : RecorderCall) :
    ∃ data st', st.call input = some (data,st') ∧ st'.Sound ∧ st'.calculator = st.calculator := by
  cases input with
  | event ID msg tick =>
    obtain ⟨st',hevent,hsound,hcalculator,-⟩ := @event_sound st ID msg tick hst
    exact ⟨[],st',by rw [call,hevent]; rfl,hsound,hcalculator⟩
  | capture len =>
    obtain ⟨data,st',hcapture,hsound,hcalculator,-⟩ := capture_keeps hst len
    exact ⟨data,st',hcapture,hsound,hcalculator⟩

/-- A recorder that has learnt does not learn again. -/
theorem call_learnt (hst : st.Sound) (hlearnt : st.lStruct.isLearning = false)
    {data : List UInt8} {st' : CANRecorder} (hcall : st.call input = some (data,st')) :
    st'.lStruct = st.lStruct := by
  cases input with
  | event ID msg tick =>
    rw [call,Option.map_eq_some_iff] at hcall
    obtain ⟨next,hevent,hnext⟩ := hcall
    cases hnext
    have hlearning : st.lStruct.isLearning ≠ true := by simp [hlearnt]
    by_cases hhears : st.Hears ID msg
    · by_cases hempty : st.nPoints = 0
      · obtain ⟨known,hknown,hend⟩ := exists_known hst
        obtain ⟨stored,hrecords,-⟩ :=
          @event_of_empty st ID msg tick hst hhears hlearning hempty known hknown hend
        cases hevent.symm.trans hrecords
        rfl
      · rw [event_of_full hlearning (by rw [hst.nPointsMax]; omega)] at hevent
        cases hevent
        rfl
    · rw [event_of_not_hears hhears] at hevent
      cases hevent
      rfl
  | capture len =>
    obtain ⟨data',st'',hcapture,-,-,hlStruct⟩ := capture_keeps hst len
    cases hcall.symm.trans hcapture
    exact hlStruct

/-- The uses so far are allowed, and the block is still there while the recorder learns. -/
structure TmpSafe (uses : List TmpUse) (st : CANRecorder) : Prop where
  sound : st.Sound
  allowed : Justified TmpUse.Allowed uses
  kept : st.lStruct.isLearning = true → TmpUse.free ∉ uses

/-- Every call makes only allowed uses. -/
theorem callUses_safe {uses : List TmpUse} (hsafe : TmpSafe uses st) {output : List TmpUse}
    {st' : CANRecorder} (hcall : st.callUses input = some (output,st')) :
    TmpSafe (uses ++ output) st' := by
  have hst := hsafe.sound
  rw [callUses,Option.map_eq_some_iff] at hcall
  obtain ⟨⟨data,next⟩,hcall,hnext⟩ := hcall
  cases hnext
  have hsound : next.Sound := by
    obtain ⟨data',st'',hsome,hsound,-⟩ := call_sound hst input
    cases hcall.symm.trans hsome
    exact hsound
  by_cases hlearning : st.lStruct.isLearning = true
  · have hkept := hsafe.kept hlearning
    cases input with
    | capture len =>
      rw [tmpUses,List.append_nil]
      exact ⟨hsound,hsafe.allowed,fun _ => hkept⟩
    | event ID msg tick =>
      by_cases hhears : st.Hears ID msg
      · rw [call,event_of_learning hhears hlearning] at hcall
        rw [tmpUses,if_pos ⟨hhears,hlearning⟩]
        by_cases hn : st.lStruct.nTicks = 0
        · rw [learn_of_done hn hst.tmp_length hst.dataResult_length] at hcall
          cases hcall
          have hsplit : uses ++ [TmpUse.sum,.free] = uses ++ [.sum] ++ [.free] := by simp
          have hsum : TmpUse.free ∉ uses ++ [.sum] := by simp [hkept]
          rw [if_pos hn,hsplit]
          refine ⟨hsound,?_,nofun⟩
          rw [justified_concat,justified_concat]
          exact ⟨⟨hsafe.allowed,trivial,hkept⟩,trivial,hsum⟩
        · by_cases hold : st.lStruct.oldTick = 0
          · rw [if_neg hn,if_pos hold,List.append_nil]
            exact ⟨hsound,hsafe.allowed,fun _ => hkept⟩
          · have hticks := hst.nTicks_le
            rw [if_neg hn,if_neg hold]
            refine ⟨hsound,?_,fun _ => by simp [hkept]⟩
            rw [justified_concat]
            refine ⟨hsafe.allowed,?_,hkept⟩
            rw [TmpUse.Inside]
            omega
      · rw [tmpUses,if_neg fun hboth => hhears hboth.1,List.append_nil]
        exact ⟨hsound,hsafe.allowed,fun _ => hkept⟩
  · have hlearnt := call_learnt hst (Bool.eq_false_of_not_eq_true hlearning) hcall
    have hnone : st.tmpUses input = [] := by
      cases input with
      | capture len => rfl
      | event ID msg tick => rw [tmpUses,if_neg fun hboth => hlearning hboth.2]
    rw [hnone,List.append_nil]
    refine ⟨hsound,hsafe.allowed,?_⟩
    rw [hlearnt]
    exact fun hagain => absurd hagain hlearning

theorem Sound.offset_ge (hst : st.Sound) : headerSize st.calculator ≤ st.offset := by
  rcases hst.points with ⟨-,hoffset⟩ | ⟨-,hoffset⟩
  · rw [hoffset]
  · rw [hoffset]
    exact foldl_addLen_ge _ _

/-- A recorder of a calculator that `SetData` made ready never leaves its blocks or the data of a
frame, whatever frames and captures come: no run fails, the offset stays between the header and
the end of the block, and the block of the samples is used inside and until it is freed. -/
theorem memory_safe (old : CANRecorderCalculator) (buff : Memory)
    (hready : (old.setData buff).object.ready = true) (tmp : List UInt32)
    (htmp : tmp.length = canFramesToWait) (memory : List UInt8)
    (hmemory : memory.length = netFrameAllocSz) :
    ∃ built, new (old.setData buff).object tmp memory = some built ∧
      ∀ calls : List RecorderCall, ∃ uses st,
        run callUses built calls = some (uses,st) ∧
        9 + 2 * (old.setData buff).object.calcHeader.nChunks.toNat ≤ st.offset ∧
        st.offset ≤ 63 ∧ st.dataResult.length = netFrameAllocSz ∧
        Justified TmpUse.Allowed uses.flatten := by
  have hvalid := CANRecorderCalculator.valid_of_ready old hready
  obtain ⟨built,hnew,hbuilt,hcalculator,-⟩ := new_sound hvalid htmp hmemory
  refine ⟨built,hnew,fun calls => ?_⟩
  have hsteps (st : CANRecorder) (input : RecorderCall)
      (hst : st.Sound ∧ st.calculator = built.calculator) (_ : True) :
      ∃ output st', st.callUses input = pure (output,st') ∧
        st'.Sound ∧ st'.calculator = built.calculator := by
    obtain ⟨data,st',hcall,hsound,hsame⟩ := call_sound hst.1 input
    exact ⟨st.tmpUses input,st',by rw [callUses,hcall]; rfl,hsound,hsame.trans hst.2⟩
  have hall (s : CANRecorder) : Meets callUses (fun _ _ => True) s calls :=
    meets_of_forall_mem (fun _ _ _ => trivial) s
  obtain ⟨uses,st,hrun,hsound,hsame⟩ := run_keeps hsteps calls built ⟨hbuilt,rfl⟩ (hall built)
  have hsafe : TmpSafe ([] ++ uses.flatten) st := by
    apply run_observes (I := TmpSafe) _ calls built []
      ⟨hbuilt,justified_nil,fun _ => List.not_mem_nil⟩ (hall built) hrun
    exact fun _ _ _ _ _ hs _ hcall => callUses_safe hs hcall
  have hge := hsound.offset_ge
  have hlt := hsound.offset_lt
  rw [hsame,hcalculator,headerSize,netFrameHeaderSize] at hge
  rw [netFrameAllocSz] at hlt
  refine ⟨uses,st,hrun,by omega,by omega,hsound.dataResult_length,?_⟩
  rw [List.nil_append] at hsafe
  exact hsafe.allowed

/-- A calculator with one chunk for the address `0x7E8`. -/
def wholeFrame : Memory := fun i => [2,0,0,0,0,0,0,0xE8,7,0,0,0,0,1,0,8].getD i 0

def noCalculator : CANRecorderCalculator := ⟨false,false,⟨0,0,0,0,0,0,0⟩,[]⟩

theorem memory_safe_wholeFrame : ∃ built,
    new (noCalculator.setData wholeFrame).object (List.replicate 32 0) (List.replicate 64 0) =
      some built ∧
    ∀ calls : List RecorderCall, ∃ uses st, run callUses built calls = some (uses,st) ∧
      9 + 2 * (noCalculator.setData wholeFrame).object.calcHeader.nChunks.toNat ≤ st.offset ∧
      st.offset ≤ 63 ∧ st.dataResult.length = netFrameAllocSz ∧
      Justified TmpUse.Allowed uses.flatten :=
  memory_safe noCalculator wholeFrame (by decide +kernel) _ (by decide) _ (by decide)

end CANRecorder

end Pyrn.Can
