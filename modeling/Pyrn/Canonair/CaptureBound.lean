import Pyrn.Canonair.CaptureLoop
import Pyrn.Canonair.RecorderListens
import Pyrn.Framework.Run
import Mathlib.Data.List.Induction

/-!
# The bound of the capture buffer

The CAN thread hands messages to the recorders while the main loop captures them one after the
other. A round fits into `recordData` in every run exactly when the records of the recorders that
can hear anything do, together with the IMU frame and the GPS frame.
-/

namespace Pyrn.Canonair

open Pyrn.Can LittleEndian

section Round

/-- The bytes that a round writes for what a recorder has left in `buff`. -/
def frameSize (buff : List UInt8) : Nat := if buff.length ≠ 0 then 2 + buff.length else 0

/-- The offset behind all that a round writes. -/
def roundSize (captures : List (List UInt8)) (impact : Option GpsImpact) : Nat :=
  3 + (captures.map frameSize).sum + sizeofImuFrame +
    if impact.isSome = true then sizeofGpsFrame else 0

/-- The writes up to an offset succeed exactly when the offset lies inside `recordData`. -/
def WrittenTo (written : Option RecordData) (offset : Nat) : Prop :=
  if offset ≤ recDtaSz then
    ∃ st,written = some st ∧ st.bytes.length = recDtaSz ∧ st.offset = offset
  else written = none

variable {written : Option RecordData} {offset : Nat}

theorem WrittenTo.write (h : WrittenTo written offset) (xs : List UInt8) :
    WrittenTo (written.bind fun st => st.write xs) (offset + xs.length) := by
  rw [WrittenTo] at h ⊢
  by_cases hbefore : offset ≤ recDtaSz
  · rw [if_pos hbefore] at h
    obtain ⟨st,rfl,hlength,rfl⟩ := h
    rw [Option.bind_some,RecordData.write]
    by_cases hfits : st.offset + xs.length ≤ recDtaSz
    · obtain ⟨stored,hstore,hstored⟩ := Buffer.exists_store st.bytes xs st.offset
        (by rw [hlength]; exact hfits)
      rw [if_pos hfits,hstore]
      exact ⟨_,rfl,hstored.trans hlength,rfl⟩
    · have hstore : Buffer.store st.bytes st.offset xs = none := by
        rw [Buffer.store,if_neg]
        rw [hlength]
        omega
      rw [if_neg hfits,hstore]
      rfl
  · rw [if_neg hbefore] at h
    rw [h,if_neg (by omega)]
    rfl

theorem WrittenTo.capture (h : WrittenTo written offset) (captures : List (List UInt8)) :
    WrittenTo (written.bind fun st => capture st captures)
      (offset + (captures.map frameSize).sum) := by
  induction captures generalizing written offset with
  | nil =>
      have hnone : (written.bind fun st => capture st []) = written := by
        cases written <;> rfl
      rw [hnone]
      exact h
  | cons buff later ih =>
      rw [List.map_cons,List.sum_cons,← Nat.add_assoc,frameSize]
      by_cases hbuff : buff.length ≠ 0
      · have hrest := ih ((h.write (toBytes 2 buff.length)).write buff)
        rw [toBytes_length,Nat.add_assoc offset] at hrest
        rw [if_pos hbuff]
        convert hrest using 1
        rw [Option.bind_assoc,Option.bind_assoc]
        congr 1
        funext st
        rw [Pyrn.Canonair.capture,if_pos hbuff]
        simp only [Option.bind_eq_bind]
      · have hrest := ih h
        rw [if_neg hbuff,Nat.add_zero]
        convert hrest using 1
        congr 1
        funext st
        rw [Pyrn.Canonair.capture,if_neg hbuff]

theorem imuFrame_length (sample : ImuSample) : (imuFrame sample).length = sizeofImuFrame := by
  simp [imuFrame,sizeofImuFrame]

theorem gpsFrame_length (impact : GpsImpact) : (gpsFrame impact).length = sizeofGpsFrame := by
  simp [gpsFrame,sizeofGpsFrame]

/-- What has been written is sent. -/
theorem WrittenTo.sendData_isSome_iff (h : WrittenTo written offset) :
    (written.bind fun st => sendData st.bytes st.offset).isSome = true ↔ offset ≤ recDtaSz := by
  rw [WrittenTo] at h
  by_cases hfits : offset ≤ recDtaSz
  · rw [if_pos hfits] at h
    obtain ⟨st,rfl,hlength,hoffset⟩ := h
    rw [Option.bind_some,sendData,Buffer.load_zero_of_le (by rw [List.length_set]; omega)]
    exact iff_of_true rfl hfits
  · rw [if_neg hfits] at h
    rw [h]
    exact iff_of_false Bool.false_ne_true hfits

/-- A round goes through exactly when all that it writes fits. -/
theorem captureRound_isSome_iff (pktCount : UInt16) (captures : List (List UInt8))
    (sample : ImuSample) (impact : Option GpsImpact) :
    (captureRound pktCount captures sample impact).isSome = true ↔
      roundSize captures impact ≤ recDtaSz := by
  have hstart : WrittenTo (some ⟨List.replicate recDtaSz 0,0⟩) 0 :=
    ⟨_,rfl,List.length_replicate,rfl⟩
  have himu := (((hstart.write [0x02]).write (toBytes 2 pktCount.toNat)).capture
    captures).write (imuFrame sample)
  have hsize : 0 + ([0x02] : List UInt8).length + (toBytes 2 pktCount.toNat).length +
      (captures.map frameSize).sum + (imuFrame sample).length =
        3 + (captures.map frameSize).sum + sizeofImuFrame := by
    rw [imuFrame_length,toBytes_length]
    rfl
  rw [hsize] at himu
  cases impact with
  | none =>
      have hsend := himu.sendData_isSome_iff
      simp only [Option.bind_assoc,Option.bind_some] at hsend
      exact hsend
  | some impact =>
      have hgps := (himu.write (gpsFrame impact)).sendData_isSome_iff
      rw [gpsFrame_length] at hgps
      simp only [Option.bind_assoc,Option.bind_some] at hgps
      exact hgps

end Round

/-- `captures` is what the recorders visited so far have left; between two rounds there is no
list. -/
structure LoopState where
  recs : List CANRecorder
  canItf : CallBacks
  pktCount : UInt16
  captures : Option (List (List UInt8))
  deriving DecidableEq, Repr

/-- A message, with the time of each call of `event`, or a step of the main loop, with what it
finds when it ends a round. -/
inductive LoopInput
  | message (bus : UInt8) (msg : CANMessage) (ticks : Nat → UInt32)
  | main (sample : ImuSample) (impact : Option GpsImpact)

def LoopState.start (setup : SetupState) : LoopState := ⟨setup.recs,setup.canItf,0,none⟩

/-- `cb->event` on the recorder at the address `cb`. -/
def callEvent (memory : Allocations) (ID : UInt32) (msg : CANMessage) (tick : UInt32)
    (recs : List CANRecorder) (cb : UInt32) : Option (List CANRecorder) := do
  let i ← (List.range recs.length).find? fun i => memory.self i = cb
  let recorder ← recs[i]?
  let recorder ← recorder.event ID msg tick
  return recs.set i recorder

/-- The calls for a message, from call `k` on. -/
def callEvents (memory : Allocations) (ID : UInt32) (msg : CANMessage) (ticks : Nat → UInt32) :
    Nat → List UInt32 → List CANRecorder → Option (List CANRecorder)
  | _, [], recs => some recs
  | k, cb :: later, recs => do
      let recs ← callEvent memory ID msg (ticks k) recs cb
      callEvents memory ID msg ticks (k + 1) later recs

/-- A step, with the datagram that it sends. The main loop begins a round, captures the next
recorder, or fills and sends the buffer. -/
def loopStep (memory : Allocations) (st : LoopState) :
    LoopInput → Option (Option (List UInt8) × LoopState)
  | .message bus msg ticks => do
      let ID := canCallback ||| bus.toUInt32 <<< 8
      let recs ← callEvents memory ID msg ticks 0 (deliveries bus msg st.canItf) st.recs
      return (none,{ st with recs := recs })
  | .main sample impact =>
      match st.captures with
      | none => some (none,{ st with captures := some [] })
      | some captures =>
          match st.recs[captures.length]? with
          | some recorder => do
              let (buff,recorder) ← recorder.capture 64
              return (none,{ st with
                recs := st.recs.set captures.length recorder
                captures := some (captures ++ [buff]) })
          | none => do
              let datagram ← captureRound st.pktCount captures sample impact
              return (some datagram,{ st with pktCount := st.pktCount + 1, captures := none })

/-- Messages reach the first ten recorders; those with the reserved identifier only the first. -/
def Hears (i : Nat) (calculator : CANRecorderCalculator) : Prop :=
  i < canSimultaneousCbs ∧ (i = 0 ∨ calculator.calcHeader.rxAddr ≠ canIdPromiscuousMode)

instance (i : Nat) (calculator : CANRecorderCalculator) : Decidable (Hears i calculator) :=
  inferInstanceAs (Decidable (_ ∧ _))

/-- The bytes of a round that belong to a recorder at most. -/
def share (calculators : List CANRecorderCalculator) (i : Nat) : Nat :=
  match calculators[i]? with
  | some calculator => if Hears i calculator then 2 + CANRecorder.recordSize calculator else 0
  | none => 0

/-- The size of the longest round. -/
def longestRound (calculators : List CANRecorderCalculator) : Nat :=
  3 + ((List.range calculators.length).map (share calculators)).sum + sizeofImuFrame +
    sizeofGpsFrame

section Messages

variable {memory : Allocations} {recs : List CANRecorder} {ID : UInt32} {msg : CANMessage}

theorem canCallback_of_dispatch (bus : UInt8) :
    (canCallback ||| bus.toUInt32 <<< 8) &&& 0x0f = canCallback := by
  have hall : ∀ n : Fin 256, (canCallback ||| (UInt8.ofFin n).toUInt32 <<< 8) &&& 0x0f =
      canCallback := by decide +kernel
  exact hall bus.toFin

/-- What the calls for a message do to a recorder. -/
structure Advances (js : List Nat) (msg : CANMessage) (ID : UInt32) (ticks : Nat → UInt32)
    (i : Nat) (before after : CANRecorder) : Prop where
  sound : after.Sound
  calculator : after.calculator = before.calculator
  kept : i ∉ js ∨ msg.id ≠ before.calculator.calcHeader.rxAddr → after = before
  remaining_le : (∀ k, (ticks k).toUInt16 ≠ 0) → after.remaining ≤ before.remaining
  remaining_lt : (∀ k, (ticks k).toUInt16 ≠ 0) → ID &&& 0x0f = canCallback → i ∈ js →
    msg.id = before.calculator.calcHeader.rxAddr → after.remaining ≤ before.remaining - 1

/-- The calls go through, and every recorder advances. -/
def AllAdvance (js : List Nat) (msg : CANMessage) (ID : UInt32) (ticks : Nat → UInt32)
    (recs : List CANRecorder) (called : Option (List CANRecorder)) : Prop :=
  ∃ recs',called = some recs' ∧ recs'.length = recs.length ∧
    ∀ i before,recs[i]? = some before →
      ∃ after,recs'[i]? = some after ∧ Advances js msg ID ticks i before after

theorem callEvent_self (hmany : recs.length ≤ nMaxRecs) {j : Nat} (hj : j < recs.length)
    (tick : UInt32) : callEvent memory ID msg tick recs (memory.self j) =
      ((recs[j]).event ID msg tick).map fun recorder => recs.set j recorder := by
  have hfind : (List.range recs.length).find? (fun i => memory.self i = memory.self j) =
      some j := by
    rw [List.find?_range_eq_some]
    refine ⟨by simp,List.mem_range.mpr hj,?_⟩
    intro i hi
    simp only [Bool.not_eq_true',decide_eq_false_iff_not]
    intro heq
    exact absurd (memory.self_inj i j (by omega) (by omega) heq) (Nat.ne_of_lt hi)
  rw [callEvent,hfind]
  simp only [Option.bind_eq_bind,Option.bind_some,List.getElem?_eq_getElem hj]
  cases (recs[j]).event ID msg tick <;> rfl

variable {ticks : Nat → UInt32} {i : Nat} {before middle after : CANRecorder}

theorem Advances.refl (hsound : before.Sound) : Advances [] msg ID ticks i before before :=
  ⟨hsound,rfl,fun _ => rfl,fun _ => le_refl _,fun _ _ hmem => absurd hmem List.not_mem_nil⟩

theorem Advances.cons {j : Nat} {js : List Nat}
    (hfirst : Advances [j] msg ID ticks i before middle)
    (hrest : Advances js msg ID ticks i middle after) :
    Advances (j :: js) msg ID ticks i before after := by
  refine ⟨hrest.sound,hrest.calculator.trans hfirst.calculator,?_,?_,?_⟩
  · intro hdeaf
    have hmiddle : middle = before := by
      apply hfirst.kept
      rcases hdeaf with hmem | hid
      · exact Or.inl fun h => hmem (List.mem_cons.mpr (Or.inl (List.mem_singleton.mp h)))
      · exact Or.inr hid
    rw [← hmiddle]
    apply hrest.kept
    rcases hdeaf with hmem | hid
    · exact Or.inl fun h => hmem (List.mem_cons_of_mem j h)
    · rw [hmiddle]
      exact Or.inr hid
  · intro hticks
    exact le_trans (hrest.remaining_le hticks) (hfirst.remaining_le hticks)
  · intro hticks hID hmem hid
    have hless := hfirst.remaining_le hticks
    rcases List.mem_cons.mp hmem with rfl | hmem
    · have hone := hfirst.remaining_lt hticks hID (List.mem_singleton_self i) hid
      have hmore := hrest.remaining_le hticks
      omega
    · have hone := hrest.remaining_lt hticks hID hmem (by rw [hfirst.calculator]; exact hid)
      omega

/-- One call of `event` on the recorder with the index `j`. -/
theorem callEvent_advances (hmany : recs.length ≤ nMaxRecs)
    (hsound : ∀ recorder ∈ recs, recorder.Sound) {j : Nat} (hj : j < recs.length) (k : Nat) :
    AllAdvance [j] msg ID ticks recs
      (callEvent memory ID msg (ticks k) recs (memory.self j)) := by
  obtain ⟨recorder,hevent,hafter,hcalculator,hle,hlt⟩ :=
    @CANRecorder.event_sound recs[j] ID msg (ticks k) (hsound _ (List.getElem_mem hj))
  refine ⟨recs.set j recorder,?_,List.length_set,?_⟩
  · rw [callEvent_self hmany hj,hevent]
    rfl
  · intro i before hi
    by_cases hij : j = i
    · subst hij
      rw [List.getElem?_eq_getElem hj] at hi
      cases hi
      refine ⟨recorder,List.getElem?_set_self hj,⟨hafter,hcalculator,?_,fun hticks =>
        hle (hticks k),fun hticks hID _ hid => hlt (hticks k) hID hid⟩⟩
      rintro (hmem | hid)
      · exact absurd (List.mem_singleton_self j) hmem
      · rw [CANRecorder.event_of_ne hid] at hevent
        exact (Option.some.inj hevent).symm
    · refine ⟨before,by rw [List.getElem?_set_ne hij,hi],⟨hsound _ (List.mem_of_getElem? hi),
        rfl,fun _ => rfl,fun _ => le_refl _,?_⟩⟩
      intro _ _ hmem
      exact absurd (List.mem_singleton.mp hmem).symm hij

theorem callEvents_advances (hmany : recs.length ≤ nMaxRecs)
    (hsound : ∀ recorder ∈ recs, recorder.Sound) {js : List Nat}
    (hjs : ∀ j ∈ js, j < recs.length) (k : Nat) :
    AllAdvance js msg ID ticks recs
      (callEvents memory ID msg ticks k (js.map memory.self) recs) := by
  induction js generalizing recs k with
  | nil => exact ⟨recs,rfl,rfl,fun i before hi =>
      ⟨before,hi,.refl (hsound _ (List.mem_of_getElem? hi))⟩⟩
  | cons j js ih =>
      have hone : AllAdvance [j] msg ID ticks recs
          (callEvent memory ID msg (ticks k) recs (memory.self j)) :=
        callEvent_advances hmany hsound (hjs j List.mem_cons_self) k
      obtain ⟨recs₁,hcall,hlength₁,hfirst⟩ := hone
      have hsound₁ : ∀ recorder ∈ recs₁, recorder.Sound := by
        intro recorder hmem
        obtain ⟨i,hi⟩ := List.mem_iff_getElem?.mp hmem
        have hlt := (List.getElem?_eq_some_iff.mp hi).1
        obtain ⟨after,hafter,hadvances⟩ := hfirst i _ (List.getElem?_eq_getElem (by omega))
        rw [hi] at hafter
        cases hafter
        exact hadvances.sound
      obtain ⟨recs₂,hcalls,hlength₂,hrest⟩ := ih (by omega) hsound₁
        (fun other hmem => by rw [hlength₁]; exact hjs other (List.mem_cons_of_mem j hmem)) (k + 1)
      refine ⟨recs₂,?_,hlength₂.trans hlength₁,?_⟩
      · rw [List.map_cons,callEvents,hcall]
        exact hcalls
      · intro i before hi
        obtain ⟨middle,hmiddle,hadvances⟩ := hfirst i before hi
        obtain ⟨after,hafter,hadvances'⟩ := hrest i middle hmiddle
        exact ⟨after,hafter,hadvances.cons hadvances'⟩

end Messages

/-- The invariant of the runs of an application: what has been captured stays inside the shares
of the recorders, and who cannot hear anything goes on learning. -/
structure LoopState.Sound (setup : SetupState) (st : LoopState) : Prop where
  canItf : st.canItf = setup.canItf
  calculators : st.recs.map CANRecorder.calculator = setup.config.recCalcs
  recs_sound : ∀ recorder ∈ st.recs, recorder.Sound
  deaf : ∀ i recorder, st.recs[i]? = some recorder → ¬Hears i recorder.calculator →
    recorder.lStruct.isLearning = true
  captured : ∀ captures, st.captures = some captures → captures.length ≤ st.recs.length ∧
    (captures.map frameSize).sum ≤
      ((List.range captures.length).map (share setup.config.recCalcs)).sum

section Runs

variable {memory : Allocations} {setup : SetupState} {st : LoopState}

theorem hears_reached {msg : CANMessage} {i n : Nat} {calculator : CANRecorderCalculator}
    (hi : i < n) (hid : msg.id = calculator.calcHeader.rxAddr) :
    Hears i calculator ↔ i ∈ reachedBy n msg := by
  rw [Hears,reachedBy,← hid]
  by_cases hreserved : msg.id = canIdPromiscuousMode
  · rw [if_pos ⟨hreserved,by omega⟩]
    simp only [hreserved,ne_eq,not_true,or_false,List.mem_cons,List.not_mem_nil,or_self,
      canSimultaneousCbs]
    omega
  · rw [if_neg fun h => hreserved h.1,List.mem_range]
    simp only [hreserved,ne_eq,not_false_eq_true,or_true,and_true]
    omega

theorem LoopState.Sound.recs_length (hsetup : setup.Sound memory) (hst : st.Sound setup) :
    st.recs.length = setup.recs.length := by
  have hcalculators := congrArg List.length (hst.calculators.trans hsetup.calculators.symm)
  rwa [List.length_map,List.length_map] at hcalculators

theorem start_loop_sound (hsetup : setup.Sound memory) :
    (LoopState.start setup).Sound setup :=
  ⟨rfl,hsetup.calculators,hsetup.recs_sound,
    fun _ recorder hi _ => hsetup.learning recorder (List.mem_of_getElem? hi),
    fun _ hnone => by cases hnone⟩

/-- A message advances the recorders that it reaches. -/
theorem loopStep_message (hsetup : setup.Sound memory) (hst : st.Sound setup) (bus : UInt8)
    (msg : CANMessage) (ticks : Nat → UInt32) :
    ∃ recs',loopStep memory st (.message bus msg ticks) = some (none,{ st with recs := recs' }) ∧
      ({ st with recs := recs' } : LoopState).Sound setup ∧
      ∀ i before,st.recs[i]? = some before → ∃ after,recs'[i]? = some after ∧
        Advances (reachedBy st.recs.length msg) msg (canCallback ||| bus.toUInt32 <<< 8) ticks i
          before after := by
  have hmany : st.recs.length ≤ nMaxRecs := by
    rw [hst.recs_length hsetup]
    exact hsetup.recs_length
  have hcalls : AllAdvance (reachedBy st.recs.length msg) msg
      (canCallback ||| bus.toUInt32 <<< 8) ticks st.recs (callEvents memory
        (canCallback ||| bus.toUInt32 <<< 8) msg ticks 0 (deliveries bus msg st.canItf)
          st.recs) := by
    rw [hst.canItf,deliveries_eq hsetup,← hst.recs_length hsetup]
    apply callEvents_advances hmany hst.recs_sound
    intro j hj
    have hlt := mem_reachedBy hj
    omega
  obtain ⟨recs',hcall,hlength,hadvances⟩ := hcalls
  have hafter (i : Nat) (after : CANRecorder) (hi : recs'[i]? = some after) :
      ∃ before,st.recs[i]? = some before ∧ Advances (reachedBy st.recs.length msg) msg
        (canCallback ||| bus.toUInt32 <<< 8) ticks i before after := by
    have hlt := (List.getElem?_eq_some_iff.mp hi).1
    have hbefore := List.getElem?_eq_getElem (show i < st.recs.length by omega)
    obtain ⟨after',hi',hadvance⟩ := hadvances i _ hbefore
    rw [hi] at hi'
    cases hi'
    exact ⟨_,hbefore,hadvance⟩
  have hsame : recs'.map CANRecorder.calculator = st.recs.map CANRecorder.calculator := by
    apply List.ext_getElem?
    intro i
    rw [List.getElem?_map,List.getElem?_map]
    cases hi : st.recs[i]? with
    | none =>
        have hge := List.getElem?_eq_none_iff.mp hi
        rw [List.getElem?_eq_none (by omega)]
    | some before =>
        obtain ⟨after,hi',hadvance⟩ := hadvances i before hi
        rw [hi',Option.map_some,Option.map_some,hadvance.calculator]
  refine ⟨recs',?_,⟨hst.canItf,?_,?_,?_,?_⟩,hadvances⟩
  · simp only [loopStep,hcall,Option.bind_eq_bind,Option.bind_some]
    rfl
  · exact hsame.trans hst.calculators
  · intro recorder hmem
    obtain ⟨i,hi⟩ := List.mem_iff_getElem?.mp hmem
    obtain ⟨before,-,hadvance⟩ := hafter i recorder hi
    exact hadvance.sound
  · intro i after hi hdeaf
    obtain ⟨before,hbefore,hadvance⟩ := hafter i after hi
    rw [hadvance.calculator] at hdeaf
    have hkept : after = before := by
      apply hadvance.kept
      by_cases hid : msg.id = before.calculator.calcHeader.rxAddr
      · left
        rw [← hears_reached (List.getElem?_eq_some_iff.mp hbefore).1 hid]
        exact hdeaf
      · exact Or.inr hid
    rw [hkept]
    exact hst.deaf i before hbefore hdeaf
  · intro captures hcaptures
    rw [hlength]
    exact hst.captured captures hcaptures

/-- The frame of a recorder, against its share. -/
theorem frameSize_capture {i : Nat} {recorder : CANRecorder} (hi : st.recs[i]? = some recorder)
    (hst : st.Sound setup) {buff : List UInt8} {recorder' : CANRecorder}
    (hcapture : recorder.capture 64 = some (buff,recorder')) :
    frameSize buff ≤ share setup.config.recCalcs i ∧
      ((Hears i recorder.calculator → recorder.remaining = 0) →
        frameSize buff = share setup.config.recCalcs i) := by
  obtain ⟨buff',recorder'',hcapture',-,-,-,hsize,hlearning,hready⟩ :=
    CANRecorder.capture_sound (hst.recs_sound recorder (List.mem_of_getElem? hi))
  obtain ⟨rfl,rfl⟩ : buff' = buff ∧ recorder'' = recorder' := by
    have heq := hcapture'.symm.trans hcapture
    simpa using heq
  have hpos : 0 < CANRecorder.recordSize recorder.calculator := CANRecorder.recordSize_pos
  have hcalculator : setup.config.recCalcs[i]? = some recorder.calculator := by
    rw [← hst.calculators,List.getElem?_map,hi]
    rfl
  rw [share,hcalculator,frameSize]
  by_cases hhears : Hears i recorder.calculator
  · simp only [if_pos hhears]
    constructor
    · rcases hsize with rfl | hlength
      · exact Nat.zero_le _
      · rw [if_pos (by omega),hlength]
    · intro hremaining
      have hlength := hready (hremaining hhears)
      rw [if_pos (by omega),hlength]
  · have hnone := hlearning (hst.deaf i recorder hi hhears)
    simp only [if_neg hhears,hnone,List.length_nil,ne_eq,not_true,if_false,le_refl,implies_true,
      and_self]

/-- The main loop captures the next recorder. -/
theorem loopStep_capture (hst : st.Sound setup) {captures : List (List UInt8)}
    (hcaptures : st.captures = some captures) {recorder : CANRecorder}
    (hi : st.recs[captures.length]? = some recorder) (sample : ImuSample)
    (impact : Option GpsImpact) : ∃ buff recorder',
      loopStep memory st (.main sample impact) = some (none,{ st with
        recs := st.recs.set captures.length recorder'
        captures := some (captures ++ [buff]) }) ∧
      ({ st with
        recs := st.recs.set captures.length recorder'
        captures := some (captures ++ [buff]) } : LoopState).Sound setup ∧
      ((Hears captures.length recorder.calculator → recorder.remaining = 0) →
        frameSize buff = share setup.config.recCalcs captures.length) := by
  have hlt := (List.getElem?_eq_some_iff.mp hi).1
  obtain ⟨buff,recorder',hcapture,hsound,hcalculator,hlStruct,-,-,-⟩ :=
    CANRecorder.capture_sound (hst.recs_sound recorder (List.mem_of_getElem? hi))
  obtain ⟨hle,heq⟩ := frameSize_capture hi hst hcapture
  refine ⟨buff,recorder',?_,⟨hst.canItf,?_,?_,?_,?_⟩,heq⟩
  · have hcapture' : recorder.capture 64 = some (buff,recorder') := hcapture
    simp only [loopStep,hcaptures,hi,hcapture',Option.bind_eq_bind,Option.bind_some]
    rfl
  · have hself : recorder = st.recs[captures.length] := by
      rw [List.getElem?_eq_getElem hlt] at hi
      exact (Option.some.inj hi).symm
    rw [List.map_set,hcalculator,hself,← List.map_set,List.set_getElem_self,hst.calculators]
  · intro other hmem
    rcases List.mem_or_eq_of_mem_set hmem with hold | rfl
    · exact hst.recs_sound other hold
    · exact hsound
  · intro i other hother hdeaf
    by_cases hself : captures.length = i
    · subst hself
      rw [List.getElem?_set_self hlt] at hother
      cases hother
      rw [hlStruct]
      rw [hcalculator] at hdeaf
      exact hst.deaf _ recorder hi hdeaf
    · rw [List.getElem?_set_ne hself] at hother
      exact hst.deaf i other hother hdeaf
  · intro captures' hcaptures'
    cases hcaptures'
    have hcaptured := (hst.captured captures hcaptures).2
    rw [List.length_append,List.length_singleton,List.length_set,List.range_succ,List.map_append,
      List.map_append,List.sum_append,List.sum_append]
    refine ⟨hlt,Nat.add_le_add hcaptured ?_⟩
    simpa using hle

theorem LoopState.Sound.length_recCalcs (hst : st.Sound setup) :
    st.recs.length = setup.config.recCalcs.length := by
  rw [← hst.calculators,List.length_map]

/-- The main loop ends a round. -/
theorem loopStep_send {captures : List (List UInt8)} (hcaptures : st.captures = some captures)
    (hall : captures.length = st.recs.length) (sample : ImuSample) (impact : Option GpsImpact) :
    loopStep memory st (.main sample impact) =
      (captureRound st.pktCount captures sample impact).map fun datagram =>
        (some datagram,{ st with pktCount := st.pktCount + 1, captures := none }) := by
  have hnone : st.recs[captures.length]? = none := List.getElem?_eq_none (by omega)
  simp only [loopStep,hcaptures,hnone,Option.bind_eq_bind]
  cases captureRound st.pktCount captures sample impact <;> rfl

/-- While the longest round fits, every step goes through and keeps the invariant. -/
theorem loopStep_sound (hsetup : setup.Sound memory)
    (hfits : longestRound setup.config.recCalcs ≤ recDtaSz) (hst : st.Sound setup)
    (input : LoopInput) :
    ∃ sent st',loopStep memory st input = some (sent,st') ∧ st'.Sound setup := by
  cases input with
  | message bus msg ticks =>
      obtain ⟨recs',hstep,hsound,-⟩ := loopStep_message hsetup hst bus msg ticks
      exact ⟨none,_,hstep,hsound⟩
  | main sample impact =>
      cases hcaptures : st.captures with
      | none =>
          refine ⟨none,{ st with captures := some [] },by simp only [loopStep,hcaptures],
            ⟨hst.canItf,hst.calculators,hst.recs_sound,hst.deaf,?_⟩⟩
          intro captures hsome
          cases hsome
          exact ⟨Nat.zero_le _,le_refl _⟩
      | some captures =>
          obtain ⟨hvisited,hsum⟩ := hst.captured captures hcaptures
          cases hi : st.recs[captures.length]? with
          | some recorder =>
              obtain ⟨buff,recorder',hstep,hsound,-⟩ :=
                @loopStep_capture memory setup st hst captures hcaptures recorder hi sample impact
              exact ⟨none,_,hstep,hsound⟩
          | none =>
              have hall : captures.length = st.recs.length := by
                have hge := List.getElem?_eq_none_iff.mp hi
                omega
              have hround : roundSize captures impact ≤ recDtaSz := by
                rw [hall,hst.length_recCalcs] at hsum
                have hgps : (if impact.isSome = true then sizeofGpsFrame else 0) ≤
                    sizeofGpsFrame := by
                  split
                  · exact le_refl _
                  · exact Nat.zero_le _
                rw [longestRound] at hfits
                rw [roundSize]
                omega
              obtain ⟨datagram,hdatagram⟩ := Option.isSome_iff_exists.mp
                ((captureRound_isSome_iff st.pktCount captures sample impact).mpr hround)
              rw [loopStep_send hcaptures hall,hdatagram]
              refine ⟨_,_,rfl,⟨hst.canItf,hst.calculators,hst.recs_sound,hst.deaf,?_⟩⟩
              intro captures' hnone
              cases hnone

/-- The messages with some addresses, one after the other, at the time 1. -/
theorem reaches_messages (hsetup : setup.Sound memory) (hst : st.Sound setup)
    (addresses : List UInt32) :
    ∃ recs',Transition.Reaches (loopStep memory) st { st with recs := recs' } ∧
      ({ st with recs := recs' } : LoopState).Sound setup ∧
      ∀ i before,st.recs[i]? = some before → ∃ after,recs'[i]? = some after ∧
        after.calculator = before.calculator ∧
        (Hears i before.calculator → after.remaining ≤
          before.remaining - addresses.count before.calculator.calcHeader.rxAddr) := by
  induction addresses using List.reverseRecOn with
  | nil => exact ⟨st.recs,.refl st,hst,fun i before hi => ⟨before,hi,rfl,fun _ => le_refl _⟩⟩
  | append_singleton addresses address ih =>
      obtain ⟨recs₁,hreach,hsound,hbefore⟩ := ih
      obtain ⟨recs₂,hstep,hsound₂,hadvances⟩ := loopStep_message hsetup hsound 1
        { CANMessage.empty with id := address } fun _ => 1
      refine ⟨recs₂,hreach.step hstep,hsound₂,?_⟩
      intro i before hi
      obtain ⟨middle,hmiddle,hcalculator,hcount⟩ := hbefore i before hi
      obtain ⟨after,hafter,hadvance⟩ := hadvances i middle hmiddle
      refine ⟨after,hafter,hadvance.calculator.trans hcalculator,?_⟩
      intro hhears
      have hle := hadvance.remaining_le fun _ => by decide
      have hless := hcount hhears
      rw [List.count_append,List.count_singleton]
      by_cases haddress : address = before.calculator.calcHeader.rxAddr
      · rw [← hcalculator] at hhears haddress hless
        have hreached : i ∈ reachedBy recs₁.length { CANMessage.empty with id := address } :=
          (hears_reached (List.getElem?_eq_some_iff.mp hmiddle).1 haddress).mp hhears
        have hone := hadvance.remaining_lt (fun _ => by decide) (canCallback_of_dispatch 1)
          hreached haddress
        rw [← hcalculator,if_pos (by simpa using haddress)]
        omega
      · rw [if_neg (by simpa using haddress)]
        omega

/-- From index `k` on, every recorder that hears anything holds a record. -/
def AllReady (k : Nat) (recs : List CANRecorder) : Prop :=
  ∀ i recorder,k ≤ i → recs[i]? = some recorder → Hears i recorder.calculator →
    recorder.remaining = 0

theorem CANRecorder.Sound.remaining_le {recorder : CANRecorder} (hsound : recorder.Sound) :
    recorder.remaining ≤ 35 := by
  have hticks := hsound.nTicks_le
  rw [canFramesToWait] at hticks
  rw [CANRecorder.remaining]
  split
  · split <;> omega
  · split <;> omega

theorem reaches_ready (hsetup : setup.Sound memory) (hst : st.Sound setup) :
    ∃ recs',Transition.Reaches (loopStep memory) st { st with recs := recs' } ∧
      ({ st with recs := recs' } : LoopState).Sound setup ∧ AllReady 0 recs' := by
  obtain ⟨recs',hreach,hsound,hafter⟩ := reaches_messages hsetup hst
    (List.replicate 35 (st.recs.map fun r => r.calculator.calcHeader.rxAddr)).flatten
  refine ⟨recs',hreach,hsound,?_⟩
  intro i after _ hi hhears
  have hlength : recs'.length = st.recs.length :=
    hsound.length_recCalcs.trans hst.length_recCalcs.symm
  have hlt := (List.getElem?_eq_some_iff.mp hi).1
  have hbefore := List.getElem?_eq_getElem (show i < st.recs.length by omega)
  obtain ⟨after',hi',hcalculator,hremaining⟩ := hafter i _ hbefore
  rw [hi] at hi'
  cases hi'
  have hmem : st.recs[i].calculator.calcHeader.rxAddr ∈
      st.recs.map fun r => r.calculator.calcHeader.rxAddr :=
    List.mem_map.mpr ⟨_,List.getElem_mem _,rfl⟩
  have hcount := List.count_pos_iff.mpr hmem
  have hless := hremaining (by rw [← hcalculator]; exact hhears)
  have hmost := CANRecorder.Sound.remaining_le (hst.recs_sound _ (List.mem_of_getElem? hbefore))
  rw [List.count_flatten,List.map_replicate,List.sum_replicate_nat] at hless
  omega

/-- From a state where all recorders are ready, a round captures all their shares. -/
theorem reaches_captures (hst : st.Sound setup) (hidle : st.captures = none)
    (hready : AllReady 0 st.recs) (sample : ImuSample) {k : Nat} (hk : k ≤ st.recs.length) :
    ∃ recs' captures,Transition.Reaches (loopStep memory) st
        { st with recs := recs', captures := some captures } ∧
      ({ st with recs := recs', captures := some captures } : LoopState).Sound setup ∧
      captures.length = k ∧ AllReady k recs' ∧ (captures.map frameSize).sum =
        ((List.range k).map (share setup.config.recCalcs)).sum := by
  induction k with
  | zero =>
      have hbegin : loopStep memory st (.main sample none) =
          some (none,{ st with captures := some [] }) := by
        simp only [loopStep,hidle]
      refine ⟨st.recs,[],(Transition.Reaches.refl st).step hbegin,
        ⟨hst.canItf,hst.calculators,hst.recs_sound,hst.deaf,?_⟩,rfl,hready,rfl⟩
      intro captures hsome
      cases hsome
      exact ⟨Nat.zero_le _,le_refl _⟩
  | succ k ih =>
      obtain ⟨recs₁,captures,hreach,hsound,rfl,hready₁,hsum⟩ := ih (by omega)
      have hlength : recs₁.length = st.recs.length :=
        hsound.length_recCalcs.trans hst.length_recCalcs.symm
      have hi := List.getElem?_eq_getElem (show captures.length < recs₁.length by omega)
      obtain ⟨buff,recorder',hstep,hsound',hframe⟩ :=
        loopStep_capture hsound rfl hi sample none
      refine ⟨_,_,hreach.step hstep,hsound',?_,?_,?_⟩
      · rw [List.length_append,List.length_singleton]
      · intro i recorder hlater hrecorder
        rw [List.getElem?_set_ne (by omega)] at hrecorder
        exact hready₁ i recorder (by omega) hrecorder
      · rw [List.range_succ,List.map_append,List.map_append,List.sum_append,List.sum_append,hsum]
        simp only [List.map_cons,List.map_nil,List.sum_cons,List.sum_nil]
        rw [hframe (hready₁ _ _ (le_refl _) hi)]

/-- A longest round that does not fit is reached. -/
theorem exists_stuck (hsetup : setup.Sound memory) (hst : st.Sound setup)
    (hidle : st.captures = none) (hlong : recDtaSz < longestRound setup.config.recCalcs)
    (sample : ImuSample) (impact : GpsImpact) :
    ∃ inputs,Transition.run (loopStep memory) st inputs = none := by
  obtain ⟨recs₁,hreach₁,hsound₁,hready⟩ := reaches_ready hsetup hst
  obtain ⟨recs₂,captures,hreach₂,hsound₂,hall,-,hsum⟩ :=
    reaches_captures hsound₁ hidle hready sample (le_refl _)
  have hall₂ : captures.length = recs₂.length := by
    rw [hall,hsound₁.length_recCalcs,hsound₂.length_recCalcs]
  have hlength : recs₁.length = setup.config.recCalcs.length := hsound₁.length_recCalcs
  have hround : captureRound st.pktCount captures sample (some impact) = none := by
    rw [← Option.not_isSome_iff_eq_none,captureRound_isSome_iff,roundSize,hsum,hlength]
    rw [longestRound] at hlong
    exact not_le.mpr hlong
  have hstuck := @loopStep_send memory ⟨recs₂,st.canItf,st.pktCount,some captures⟩ captures rfl
    hall₂ sample (some impact)
  rw [hround] at hstuck
  exact (hreach₁.trans hreach₂).stuck hstuck

end Runs

section

/-- So many recorders with seven chunks of eight bytes each. -/
def fullRecorders (n : Nat) : List UInt8 :=
  UInt8.ofNat n :: (List.range n).flatMap fun i =>
    [UInt8.ofNat i,1,0,0,7,0,8,0,8,0,8,0,8,0,8,0,8,0,8]

end

end Pyrn.Canonair
