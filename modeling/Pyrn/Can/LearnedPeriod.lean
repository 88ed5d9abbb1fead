import Pyrn.Can.RecorderSafety

/-!
# The period that a recorder learns

The samples are differences between the low half of one tick and the whole next one. Their sum
telescopes up to the high halves of the ticks, and a tick whose low half is zero is taken for no
tick at all.
-/

namespace Pyrn.Can

open Transition LittleEndian

namespace CANRecorder

/-- The tick of a frame with the address of the calculator. -/
def tickOf (calculator : CANRecorderCalculator) : RecorderCall → Option UInt32
  | .event ID msg tick =>
      if ID &&& 0x0f = canCallback ∧ msg.id = calculator.calcHeader.rxAddr then some tick else none
  | .capture _ => none

/-- The value at `dt`. -/
def dtOf (st : CANRecorder) : Nat := ofBytes ((st.dataResult.drop 4).take 2)

/-- The mean distance between the first tick and the 32nd one behind it. -/
def meanPeriod (t : Nat → UInt32) : Nat := (t 32 - t 0).toNat / canFramesToWait

/-- The sum of the high halves of the first `n` ticks. -/
def highs (t : Nat → UInt32) (n : Nat) : Nat :=
  ((List.range n).map fun i => (t i).toNat / 65536).sum

/-- No tick is taken for none, and the high halves of the ticks cancel the sign of the
differences. -/
def PeriodKept (t : Nat → UInt32) : Prop :=
  (∀ i < canFramesToWait, (t i).toUInt16 ≠ 0) ∧
    ((t 32 - t 0).toNat + 2 ^ 15 * highs t canFramesToWait) % 2 ^ 20 = 0

section Sums

/-- The sum of the first `n` samples. -/
def samplesSum (t : Nat → UInt32) : Nat → UInt32
  | 0 => 0
  | n + 1 => ((t n).toUInt16.toUInt32 - t (n + 1)) + samplesSum t n

/-- The number of the first `n` ticks that are taken for none. -/
def zeros (t : Nat → UInt32) (n : Nat) : Nat := (List.range n).countP fun i => (t i).toUInt16 = 0

variable {t : Nat → UInt32}

theorem highs_succ (n : Nat) : highs t (n + 1) = highs t n + (t n).toNat / 65536 := by
  simp [highs,List.range_succ]

theorem zeros_succ (n : Nat) :
    zeros t (n + 1) = zeros t n + if (t n).toUInt16 = 0 then 1 else 0 := by
  simp [zeros,List.range_succ,List.countP_append,List.countP_cons]

theorem zeros_eq_zero_iff (n : Nat) : zeros t n = 0 ↔ ∀ i < n, (t i).toUInt16 ≠ 0 := by
  simp [zeros,List.countP_eq_zero]

/-- The samples telescope: what is missing are the high halves. -/
theorem samplesSum_telescopes (n : Nat) :
    ((samplesSum t n).toNat + (t n - t 0).toNat + 65536 * highs t n) % 2 ^ 32 = 0 := by
  induction n with
  | zero => simp [samplesSum,highs]
  | succ n ih =>
    have hlow : (t n).toUInt16.toUInt32.toNat = (t n).toNat % 65536 := by simp
    have hfirst := (t 0).toNat_lt
    have hnext := (t (n + 1)).toNat_lt
    have hlast := (t n).toNat_lt
    rw [samplesSum,highs_succ,UInt32.toNat_add,UInt32.toNat_sub,UInt32.toNat_sub,hlow]
    rw [UInt32.toNat_sub] at ih
    omega

/-- The bits of the sum that are stored are those of the mean distance when the two agree modulo
`2 ^ 21`. -/
theorem stored_eq_iff {sum distance high : Nat} (hdistance : distance / 32 < 65536)
    (hsum : (sum + distance + 65536 * high) % 2 ^ 32 = 0) :
    sum / 32 % 65536 = distance / 32 ↔ (distance + 2 ^ 15 * high) % 2 ^ 20 = 0 := by
  have hlow : (sum + distance + 65536 * high) % 2 ^ 21 = 0 := by omega
  have hstored : sum / 32 % 65536 = sum % 2 ^ 21 / 32 := by omega
  have hrest := Nat.mod_lt high (show 0 < 32 by decide)
  constructor <;> intro h <;> omega

end Sums

section Sampling

variable {t : Nat → UInt32} {k : Nat} {st : CANRecorder}

/-- What a recorder has learnt from `k` frames while it is learning. -/
structure Sampling (t : Nat → UInt32) (k : Nat) (lStruct : LearningStuffs) : Prop where
  isLearning : lStruct.isLearning = true
  nTicks : lStruct.nTicks + (k - 1) = canFramesToWait + zeros t (k - 1)
  oldTick : lStruct.oldTick = if k = 0 then 0 else (t (k - 1)).toUInt16
  sum : zeros t (k - 1) = 0 → (lStruct.tmp.drop lStruct.nTicks).sum = samplesSum t (k - 1)

/-- What a recorder has made of the 34 frames. -/
structure Learned (t : Nat → UInt32) (st : CANRecorder) : Prop where
  isLearning : st.lStruct.isLearning = false ↔ zeros t canFramesToWait = 0
  dt : zeros t canFramesToWait = 0 →
    dtOf st = (samplesSum t canFramesToWait).toNat / 32 % 65536

/-- A recorder behind `k` of the 34 frames. -/
structure Behind (calculator : CANRecorderCalculator) (t : Nat → UInt32) (k : Nat)
    (st : CANRecorder) : Prop where
  sound : st.Sound
  calculator_eq : st.calculator = calculator
  empty : st.nPoints = 0
  sampling : k ≤ 33 → Sampling t k st.lStruct
  learned : k = 34 → Learned t st

/-- One more tick while there are samples to take. -/
theorem Sampling.learn (hsampling : Sampling t k st.lStruct) (hk : k ≤ 32)
    (htmp : st.lStruct.tmp.length = canFramesToWait) (hroom : st.lStruct.nTicks ≤ canFramesToWait)
    {st' : CANRecorder} (hlearn : st.learn (t k) = some st') :
    Sampling t (k + 1) st'.lStruct ∧ st'.nPoints = st.nPoints := by
  have hcount := hsampling.nTicks
  have hold := hsampling.oldTick
  rw [canFramesToWait] at hcount
  have hn : st.lStruct.nTicks ≠ 0 := by omega
  by_cases hnone : st.lStruct.oldTick = 0
  · rw [learn_of_not_started hn hnone] at hlearn
    cases hlearn
    refine ⟨⟨hsampling.isLearning,?_,rfl,?_⟩,rfl⟩
    · cases k with
      | zero => exact hcount
      | succ k =>
        rw [if_neg (Nat.succ_ne_zero k),Nat.add_sub_cancel,hnone] at hold
        rw [Nat.add_sub_cancel] at hcount ⊢
        rw [zeros_succ,if_pos hold.symm,canFramesToWait]
        simp only
        omega
    · cases k with
      | zero =>
        intro _
        have hall : st.lStruct.nTicks = st.lStruct.tmp.length := by
          rw [htmp,canFramesToWait]
          simpa [zeros] using hcount
        simp only [hall,List.drop_length]
        rfl
      | succ k =>
        intro hzeros
        rw [if_neg (Nat.succ_ne_zero k),Nat.add_sub_cancel,hnone] at hold
        rw [Nat.add_sub_cancel,zeros_succ,if_pos hold.symm] at hzeros
        omega
  · rw [learn_of_started hn hnone (hroom.trans_eq htmp.symm)] at hlearn
    cases hlearn
    obtain ⟨k,rfl⟩ : ∃ j, k = j + 1 := by
      cases k with
      | zero => exact absurd hold hnone
      | succ k => exact ⟨k,rfl⟩
    rw [if_neg (Nat.succ_ne_zero k),Nat.add_sub_cancel] at hold
    rw [Nat.add_sub_cancel] at hcount
    have hsame : zeros t (k + 1) = zeros t k := by
      rw [zeros_succ,if_neg (by rwa [← hold]),Nat.add_zero]
    refine ⟨⟨hsampling.isLearning,?_,rfl,?_⟩,rfl⟩
    · rw [Nat.add_sub_cancel,hsame,canFramesToWait]
      simp only
      omega
    · rw [Nat.add_sub_cancel,hsame]
      intro hzeros
      have hsum := hsampling.sum hzeros
      have hdrop : (Buffer.splice st.lStruct.tmp (st.lStruct.nTicks - 1)
          [st.lStruct.oldTick.toUInt32 - t (k + 1)]).drop (st.lStruct.nTicks - 1) =
            (st.lStruct.oldTick.toUInt32 - t (k + 1)) :: st.lStruct.tmp.drop st.lStruct.nTicks := by
        rw [Buffer.drop_splice_self (by omega),List.length_singleton,Nat.sub_add_cancel (by omega)]
        rfl
      rw [Nat.add_sub_cancel] at hsum
      rw [hdrop,List.sum_cons,hsum,hold,samplesSum]

/-- The tick behind the last sample. -/
theorem Sampling.learned (hsampling : Sampling t 33 st.lStruct) (hst : st.Sound)
    {st' : CANRecorder} (hlearn : st.learn (t 33) = some st') :
    Learned t st' ∧ st'.nPoints = st.nPoints := by
  have hcount : st.lStruct.nTicks = zeros t canFramesToWait := by
    have hcount := hsampling.nTicks
    rw [canFramesToWait,Nat.add_comm] at hcount
    exact Nat.add_left_cancel hcount
  by_cases hzeros : zeros t canFramesToWait = 0
  · rw [learn_of_done (hcount.trans hzeros) hst.tmp_length hst.dataResult_length] at hlearn
    cases hlearn
    refine ⟨⟨iff_of_true rfl hzeros,fun _ => ?_⟩,rfl⟩
    have hsum := hsampling.sum hzeros
    rw [hcount,hzeros,List.drop_zero] at hsum
    have hread : ((Buffer.splice st.dataResult 4 (toBytes 2 (learntDt st.lStruct.tmp).toNat)).drop
        4).take 2 = toBytes 2 (learntDt st.lStruct.tmp).toNat := by
      have hresult := hst.dataResult_length
      rw [netFrameAllocSz] at hresult
      have htake := @Buffer.take_drop_splice _ st.dataResult
        (toBytes 2 (learntDt st.lStruct.tmp).toNat) 4 (by rw [toBytes_length,hresult]; omega)
      rwa [toBytes_length] at htake
    rw [dtOf,hread,ofBytes_toBytes_of_lt (UInt16.toNat_lt _),learntDt,hsum]
    simp [canFramesToWait,Nat.shiftRight_eq_div_pow]
  · have hn : st.lStruct.nTicks ≠ 0 := by rwa [hcount]
    have hlearning : st.lStruct.isLearning ≠ false := by simp [hsampling.isLearning]
    have hroom := hst.nTicks_le.trans_eq hst.tmp_length.symm
    by_cases hold : st.lStruct.oldTick = 0
    · rw [learn_of_not_started hn hold] at hlearn
      cases hlearn
      exact ⟨⟨iff_of_false hlearning hzeros,fun hnone => absurd hnone hzeros⟩,rfl⟩
    · rw [learn_of_started hn hold hroom] at hlearn
      cases hlearn
      exact ⟨⟨iff_of_false hlearning hzeros,fun hnone => absurd hnone hzeros⟩,rfl⟩

end Sampling

section Runs

variable {calculator : CANRecorderCalculator} {t : Nat → UInt32} {k : Nat} {st st' : CANRecorder}
  {input : RecorderCall} {output : List UInt8}

theorem new_behind (hvalid : calculator.Valid) {tmp : List UInt32}
    (htmp : tmp.length = canFramesToWait) {memory : List UInt8}
    (hmemory : memory.length = netFrameAllocSz) (t : Nat → UInt32) :
    ∃ built, new calculator tmp memory = some built ∧ Behind calculator t 0 built := by
  obtain ⟨dataResult,hnew,hlength,-⟩ := new_eq hvalid tmp hmemory
  have hsum : (tmp.drop canFramesToWait).sum = 0 := by
    rw [← htmp,List.drop_length]
    rfl
  exact ⟨_,hnew,⟨⟨hvalid,rfl,htmp,le_refl _,hlength,rfl,Or.inl ⟨rfl,rfl⟩⟩,rfl,rfl,
    fun _ => ⟨rfl,rfl,rfl,fun _ => hsum⟩,nofun⟩⟩

/-- A recorder without a frame ignores captures and frames of other addresses. -/
theorem Behind.call_other (hbehind : Behind calculator t k st)
    (hother : tickOf calculator input = none) (hcall : st.call input = some (output,st')) :
    st' = st := by
  cases input with
  | capture len =>
    rw [call,capture_of_not_ready fun hready => hready.2 hbehind.empty] at hcall
    cases hcall
    rfl
  | event ID msg tick =>
    have hnot : ¬st.Hears ID msg := by
      intro hhears
      rw [Hears,hbehind.calculator_eq] at hhears
      rw [tickOf,if_pos ⟨hhears.1.1,hhears.2⟩] at hother
      cases hother
    rw [call,event_of_not_hears hnot] at hcall
    cases hcall
    rfl

/-- The next of the 34 frames. -/
theorem Behind.call_tick (hbehind : Behind calculator t k st) (hk : k ≤ 33)
    (htick : tickOf calculator input = some (t k)) (hcall : st.call input = some (output,st')) :
    Behind calculator t (k + 1) st' := by
  have hst := hbehind.sound
  have hsampling := hbehind.sampling hk
  cases input with
  | capture len => cases htick
  | event ID msg tick =>
    rw [tickOf] at htick
    split_ifs at htick with hheard
    cases htick
    have hhears : st.Hears ID msg := by
      rw [Hears,hbehind.calculator_eq]
      exact ⟨⟨hheard.1,hst.activated⟩,hheard.2⟩
    rw [call,Option.map_eq_some_iff] at hcall
    obtain ⟨next,hevent,hnext⟩ := hcall
    cases hnext
    rw [event_of_learning hhears hsampling.isLearning] at hevent
    obtain ⟨reached,hlearn,hsound,hsame,-⟩ :=
      @learn_sound st (t k) hst hsampling.isLearning
    cases hevent.symm.trans hlearn
    by_cases hlast : k = 33
    · subst hlast
      obtain ⟨hlearned,hpoints⟩ := hsampling.learned hst hlearn
      exact ⟨hsound,hsame.trans hbehind.calculator_eq,hpoints.trans hbehind.empty,
        fun hmore => absurd hmore (by decide),fun _ => hlearned⟩
    · obtain ⟨hnext,hpoints⟩ := hsampling.learn (by omega) hst.tmp_length hst.nTicks_le hlearn
      exact ⟨hsound,hsame.trans hbehind.calculator_eq,hpoints.trans hbehind.empty,
        fun _ => hnext,fun hdone => absurd hdone (by omega)⟩

/-- A run that hears the rest of the 34 frames. -/
theorem run_behind {left : Nat} (hleft : k + left = 34) (hbehind : Behind calculator t k st)
    (calls : List RecorderCall)
    (hheard : calls.filterMap (tickOf calculator) = (List.range' k left).map t) :
    ∃ outputs st', run call st calls = some (outputs,st') ∧ Behind calculator t 34 st' := by
  induction calls generalizing k left st with
  | nil =>
    cases left with
    | zero =>
      obtain rfl : k = 34 := hleft
      exact ⟨[],st,rfl,hbehind⟩
    | succ left => cases hheard
  | cons input calls ih =>
    obtain ⟨output,next,hcall,-⟩ := call_sound hbehind.sound input
    have hcons {outputs : List (List UInt8)} {last : CANRecorder}
        (hrest : run call next calls = some (outputs,last)) :
        run call st (input :: calls) = some (output :: outputs,last) :=
      (run_cons_eq_some_iff hcall).mpr ⟨outputs,rfl,hrest⟩
    cases htick : tickOf calculator input with
    | none =>
      rw [List.filterMap_cons_none htick] at hheard
      have hsame := hbehind.call_other htick hcall
      obtain ⟨outputs,last,hrest,hlast⟩ := ih hleft (hsame ▸ hbehind) hheard
      exact ⟨output :: outputs,last,hcons hrest,hlast⟩
    | some tick =>
      rw [List.filterMap_cons_some htick] at hheard
      cases left with
      | zero => cases hheard
      | succ left =>
        rw [List.range'_succ,List.map_cons,List.cons.injEq] at hheard
        have hnext := hbehind.call_tick (by omega) (htick.trans (congrArg some hheard.1)) hcall
        obtain ⟨outputs,last,hrest,hlast⟩ :=
          ih (show k + 1 + left = 34 by omega) hnext hheard.2
        exact ⟨output :: outputs,last,hcons hrest,hlast⟩

end Runs

/-- When the mean distance of the 33 ticks fits, a recorder that has heard 34 frames, whatever
calls came between them, has stored that distance exactly if no tick is taken for none and the
high halves of the ticks cancel the sign of the differences. -/
theorem learnt_period_iff (old : CANRecorderCalculator) (buff : Memory)
    (hready : (old.setData buff).object.ready = true) (tmp : List UInt32)
    (htmp : tmp.length = canFramesToWait) (memory : List UInt8)
    (hmemory : memory.length = netFrameAllocSz) (t : Nat → UInt32)
    (hfits : meanPeriod t < 65536) (calls : List RecorderCall)
    (hheard : calls.filterMap (tickOf (old.setData buff).object) = (List.range 34).map t) :
    ∃ built outputs st, new (old.setData buff).object tmp memory = some built ∧
      run call built calls = some (outputs,st) ∧
      (st.lStruct.isLearning = false ∧ dtOf st = meanPeriod t ↔ PeriodKept t) := by
  have hvalid := CANRecorderCalculator.valid_of_ready old hready
  obtain ⟨built,hnew,hstart⟩ := new_behind hvalid htmp hmemory t
  rw [List.range_eq_range'] at hheard
  obtain ⟨outputs,st,hrun,hbehind⟩ := run_behind (Nat.zero_add 34) hstart calls hheard
  have hlearned := hbehind.learned rfl
  refine ⟨built,outputs,st,hnew,hrun,?_⟩
  rw [hlearned.isLearning,PeriodKept,← zeros_eq_zero_iff]
  apply and_congr_right
  intro hzeros
  rw [hlearned.dt hzeros]
  exact stored_eq_iff hfits (samplesSum_telescopes canFramesToWait)

/-- Frames of the address `0x7E8`, 100 ticks apart. -/
def steadyTicks (i : Nat) : UInt32 := UInt32.ofNat (100 * i + 100)

def steadyFrame : CANMessage := ⟨0x7E8,[1,2,3,4,5,6,7,8],8,.CANStandard,.CANData,rfl⟩

def steadyFrames : List RecorderCall :=
  (List.range 34).map fun i => .event 1 steadyFrame (steadyTicks i)

theorem learnt_period_iff_steady : ∃ built outputs st,
    new (noCalculator.setData wholeFrame).object (List.replicate 32 0) (List.replicate 64 0) =
      some built ∧
    run call built steadyFrames = some (outputs,st) ∧
      (st.lStruct.isLearning = false ∧ dtOf st = meanPeriod steadyTicks ↔
        PeriodKept steadyTicks) :=
  learnt_period_iff noCalculator wholeFrame (by decide +kernel) _ (by decide) _ (by decide)
    steadyTicks (by decide +kernel) steadyFrames (by decide +kernel)

/-- The recorder learns the distance 100 as 65436. -/
theorem steadyFrames_learnt :
    ((new (noCalculator.setData wholeFrame).object (List.replicate 32 0)
      (List.replicate 64 0)).bind fun built =>
        (run call built steadyFrames).map fun result =>
          (result.2.lStruct.isLearning,dtOf result.2)) = some (false,65436) ∧
      meanPeriod steadyTicks = 100 := by
  decide +kernel

end CANRecorder

end Pyrn.Can
