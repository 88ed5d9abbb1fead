import Pyrn.Framework.Run

/-!
# The index of the keep-alive timers

Every diagnosis sensor walks over its calculators in its own thread. While it talks to one of
them, a periodic timer sends the keep-alive command; the index of the calculator reaches the
timer callback through one variable that all sensors share.
-/

namespace Pyrn.Can

/-- The atomic steps of `CANDiagSensorBase::Loop`. -/
inductive LoopPoint
  | test
  | diagStart
  | writeCalcIndex
  | timerStart
  | diagSequence
  | keepAliveStop
  | diagStop
  deriving DecidableEq, Repr

/-- A sensor in front of the step `point` of the round for calculator `i`. -/
structure CANDiagSensor6A where
  nCalculators : Nat
  point : LoopPoint
  i : Nat
  timerRunning : Bool
  deriving DecidableEq, Repr

structure DiagState where
  calcIndex : Nat
  sensors : List CANDiagSensor6A
  deriving DecidableEq, Repr

/-- A step of the thread of a sensor, or of its timer. -/
inductive DiagEvent
  | loop (k : Nat)
  | tick (k : Nat)
  deriving DecidableEq, Repr

/-- A run of `KeepAliveSequence(index)` on a sensor that is diagnosing `current`. -/
structure KeepAliveSequence where
  index : Nat
  nCalculators : Nat
  current : Nat
  deriving DecidableEq, Repr

namespace CANDiagSensor6A

/-- One step of `Loop`; `Main` calls `Loop` again when it returns. -/
def next (sensor : CANDiagSensor6A) : CANDiagSensor6A :=
  match sensor.point with
  | .test =>
      if sensor.i < sensor.nCalculators then { sensor with point := .diagStart }
      else { sensor with i := 0 }
  | .diagStart => { sensor with point := .writeCalcIndex }
  | .writeCalcIndex => { sensor with point := .timerStart }
  | .timerStart => { sensor with point := .diagSequence,timerRunning := true }
  | .diagSequence => { sensor with point := .keepAliveStop }
  | .keepAliveStop => { sensor with point := .diagStop,timerRunning := false }
  | .diagStop => { sensor with point := .test,i := sensor.i + 1 }

/-- `CalcIndex` after the step. -/
def written (sensor : CANDiagSensor6A) (calcIndex : Nat) : Nat :=
  if sensor.point = .writeCalcIndex then sensor.i else calcIndex

/-- The sensor is between its write of `CalcIndex` and its `KeepAliveStop`. -/
def Armed (sensor : CANDiagSensor6A) : Prop :=
  sensor.point = .timerStart ∨ sensor.point = .diagSequence ∨ sensor.point = .keepAliveStop

end CANDiagSensor6A

def diagStep (s : DiagState) : DiagEvent → List KeepAliveSequence × DiagState
  | .loop k =>
      match s.sensors[k]? with
      | none => ([],s)
      | some sensor => ([],{
          calcIndex := sensor.written s.calcIndex
          sensors := s.sensors.set k sensor.next })
  | .tick k =>
      match s.sensors[k]? with
      | none => ([],s)
      | some sensor =>
          if sensor.timerRunning then ([⟨s.calcIndex,sensor.nCalculators,sensor.i⟩],s) else ([],s)

/-- The call uses the calculator that the sensor is diagnosing. -/
def OwnCalculator (call : KeepAliveSequence) : Prop :=
  call.index < call.nCalculators ∧ call.index = call.current

instance (sensor : CANDiagSensor6A) : Decidable sensor.Armed :=
  inferInstanceAs (Decidable (_ ∨ _ ∨ _))

/-- A write of `CalcIndex` finds every other armed sensor at the same index. -/
def WriteAgrees (s : DiagState) : DiagEvent → Prop
  | .loop k => ∀ sensor ∈ s.sensors[k]?, sensor.point = .writeCalcIndex →
      ∀ j < s.sensors.length, j ≠ k → ∀ other ∈ s.sensors[j]?, other.Armed → other.i = sensor.i
  | .tick _ => True

instance (s : DiagState) : ∀ event, Decidable (WriteAgrees s event)
  | .loop k => inferInstanceAs (Decidable (∀ sensor ∈ s.sensors[k]?,
      sensor.point = .writeCalcIndex → ∀ j < s.sensors.length, j ≠ k →
        ∀ other ∈ s.sensors[j]?, other.Armed → other.i = sensor.i))
  | .tick _ => inferInstanceAs (Decidable True)

/-- What holds of a sensor along a run; `Agrees` carries the shared index. -/
structure Steady (calcIndex : Nat) (sensor : CANDiagSensor6A) : Prop where
  bounded : sensor.point ≠ .test → sensor.i < sensor.nCalculators
  timer : sensor.timerRunning = true ↔
    sensor.point = .diagSequence ∨ sensor.point = .keepAliveStop
  agrees : sensor.Armed → calcIndex = sensor.i

def AllSteady (s : DiagState) : Prop :=
  ∀ (k : Nat) sensor, s.sensors[k]? = some sensor → Steady s.calcIndex sensor

/-- All sensors are about to enter `Loop`, with their timers off. -/
def Idle (s : DiagState) : Prop :=
  ∀ sensor ∈ s.sensors, sensor.point = .test ∧ sensor.timerRunning = false

instance (s : DiagState) : Decidable (Idle s) := inferInstanceAs (Decidable (∀ _ ∈ _, _))

theorem allSteady_of_idle {s : DiagState} (hs : Idle s) : AllSteady s := by
  intro k sensor hk
  obtain ⟨hpoint,htimer⟩ := hs sensor (List.mem_of_getElem? hk)
  refine ⟨fun hmoved => absurd hpoint hmoved,?_,?_⟩
  · rw [hpoint,htimer]
    decide
  · rintro (hat' | hat' | hat') <;> rw [hpoint] at hat' <;> cases hat'

/-- A sensor's own step, with the index it leaves behind. -/
theorem steady_next {calcIndex : Nat} {sensor : CANDiagSensor6A}
    (hsteady : Steady calcIndex sensor) : Steady (sensor.written calcIndex) sensor.next := by
  obtain ⟨n,point,i,timer⟩ := sensor
  have hbounded : point ≠ .test → i < n := hsteady.bounded
  have htimer : timer = true ↔ point = .diagSequence ∨ point = .keepAliveStop := hsteady.timer
  have hagrees : point = .timerStart ∨ point = .diagSequence ∨ point = .keepAliveStop →
      calcIndex = i := hsteady.agrees
  rw [CANDiagSensor6A.written,CANDiagSensor6A.next]
  cases point with
  | test =>
    by_cases hi : i < n
    · simp only [if_pos hi]
      refine ⟨fun _ => hi,?_,?_⟩ <;> simp_all [CANDiagSensor6A.Armed]
    · simp only [if_neg hi]
      refine ⟨fun hmoved => absurd rfl hmoved,?_,?_⟩ <;> simp_all [CANDiagSensor6A.Armed]
  | _ => refine ⟨fun _ => ?_,?_,?_⟩ <;> simp_all [CANDiagSensor6A.Armed]

theorem diagStep_loop {s : DiagState} {k : Nat} {sensor : CANDiagSensor6A}
    (hk : s.sensors[k]? = some sensor) : diagStep s (.loop k) =
      ([],⟨sensor.written s.calcIndex,s.sensors.set k sensor.next⟩) := by
  rw [diagStep,hk]

theorem diagStep_tick {s : DiagState} {k : Nat} {sensor : CANDiagSensor6A}
    (hk : s.sensors[k]? = some sensor) (htimer : sensor.timerRunning = true) :
    diagStep s (.tick k) = ([⟨s.calcIndex,sensor.nCalculators,sensor.i⟩],s) := by
  rw [diagStep,hk]
  exact if_pos htimer

theorem AllSteady.loop {s : DiagState} {k : Nat} (hs : AllSteady s)
    (hok : WriteAgrees s (.loop k)) : AllSteady (diagStep s (.loop k)).2 := by
  rw [diagStep]
  cases hk : s.sensors[k]? with
  | none => exact hs
  | some sensor =>
    intro j other hj
    change (s.sensors.set k sensor.next)[j]? = some other at hj
    change Steady (sensor.written s.calcIndex) other
    by_cases hjk : j = k
    · subst hjk
      rw [List.getElem?_set_self'] at hj
      obtain ⟨-,-,rfl⟩ := Option.map_eq_some_iff.mp hj
      exact steady_next (hs j sensor hk)
    · rw [List.getElem?_set_ne (Ne.symm hjk)] at hj
      obtain ⟨hbounded,htimer,hagrees⟩ := hs j other hj
      refine ⟨hbounded,htimer,fun harmed => ?_⟩
      rw [CANDiagSensor6A.written]
      split_ifs with hwrite
      · obtain ⟨hlt,-⟩ := List.getElem?_eq_some_iff.mp hj
        exact (hok sensor hk hwrite j hlt hjk other hj harmed).symm
      · exact hagrees harmed

theorem ownCalculator_of_steady {s : DiagState} (hs : AllSteady s) {k : Nat} :
    ∀ call ∈ (diagStep s (.tick k)).1, OwnCalculator call := by
  intro call hcall
  rw [diagStep] at hcall
  cases hk : s.sensors[k]? with
  | none =>
    rw [hk] at hcall
    cases hcall
  | some sensor =>
    rw [hk] at hcall
    by_cases htimer : sensor.timerRunning = true
    · simp only [if_pos htimer,List.mem_singleton] at hcall
      obtain ⟨hbounded,hrunning,hagrees⟩ := hs k sensor hk
      have hpoint := hrunning.mp htimer
      have hindex : s.calcIndex = sensor.i := hagrees (Or.inr hpoint)
      have hmoved : sensor.point ≠ .test := by
        rcases hpoint with h | h <;> rw [h] <;> decide
      rw [hcall]
      refine ⟨?_,hindex⟩
      rw [hindex]
      exact hbounded hmoved
    · simp only [if_neg htimer,List.not_mem_nil] at hcall

/-- A step that writes no foreign index keeps the sensors steady; its calls are right. -/
theorem diagStep_steady (s : DiagState) (event : DiagEvent) (hs : AllSteady s)
    (hok : WriteAgrees s event) : AllSteady (diagStep s event).2 ∧
      ∀ call ∈ (diagStep s event).1, OwnCalculator call := by
  cases event with
  | loop k =>
    refine ⟨hs.loop hok,fun call hcall => ?_⟩
    rw [diagStep] at hcall
    cases hk : s.sensors[k]? <;> rw [hk] at hcall <;> cases hcall
  | tick k =>
    refine ⟨?_,ownCalculator_of_steady hs⟩
    rw [diagStep]
    cases hk : s.sensors[k]? with
    | none => exact hs
    | some sensor => by_cases htimer : sensor.timerRunning = true <;> simpa [htimer] using hs

/-- After a write that does not agree with an armed sensor, two more steps are enough for a call
with the wrong index. -/
theorem exists_foreign_call {s : DiagState} (hs : AllSteady s) {k : Nat}
    (hbad : ¬WriteAgrees s (.loop k)) : ∃ more, ∃ output ∈
      (Transition.runTotal diagStep (diagStep s (.loop k)).2 more).1, ∃ call ∈ output,
        ¬OwnCalculator call := by
  rw [WriteAgrees] at hbad
  push Not at hbad
  obtain ⟨sensor,hk,hwrite,j,-,hjk,other,hj,harmed,hdiffers⟩ := hbad
  rw [diagStep_loop hk,CANDiagSensor6A.written,if_pos hwrite]
  have hother : (s.sensors.set k sensor.next)[j]? = some other := by
    rw [List.getElem?_set_ne (Ne.symm hjk)]
    exact hj
  have hforeign : ¬OwnCalculator ⟨sensor.i,other.nCalculators,other.i⟩ :=
    fun hown => hdiffers hown.2.symm
  by_cases htimer : other.timerRunning = true
  · refine ⟨[.tick j],[⟨sensor.i,other.nCalculators,other.i⟩],?_,_,List.mem_singleton_self _,
      hforeign⟩
    rw [Transition.runTotal,diagStep_tick hother htimer]
    exact List.mem_cons_self
  · have hpoint : other.point = .timerStart := by
      rcases harmed with hpoint | hpoint
      · exact hpoint
      · exact absurd ((hs j other hj).timer.mpr hpoint) htimer
    have hnext : other.next = { other with point := .diagSequence,timerRunning := true } := by
      rw [CANDiagSensor6A.next,hpoint]
    have hwritten : other.written sensor.i = sensor.i := by
      rw [CANDiagSensor6A.written,if_neg (by rw [hpoint]; decide)]
    obtain ⟨hlt,-⟩ := List.getElem?_eq_some_iff.mp hother
    have hstarted : ((s.sensors.set k sensor.next).set j other.next)[j]? = some other.next :=
      List.getElem?_set_self hlt
    refine ⟨[.loop j,.tick j],[⟨sensor.i,other.nCalculators,other.i⟩],?_,_,
      List.mem_singleton_self _,hforeign⟩
    rw [Transition.runTotal,Transition.runTotal,diagStep_loop hother,hwritten,
      diagStep_tick hstarted (by rw [hnext]),hnext]
    exact List.mem_cons_of_mem _ List.mem_cons_self

/-- In every interleaving whose writes of `CalcIndex` agree with the armed sensors, every
keep-alive sequence is that of the calculator being diagnosed; a write that does not agree can
be followed by one that is not. -/
theorem keepAlive_exact (start : DiagState) (hstart : Idle start) (events : List DiagEvent)
    (hok : Transition.Admissible diagStep WriteAgrees start events) :
    (∀ output ∈ (Transition.runTotal diagStep start events).1, ∀ call ∈ output,
        OwnCalculator call) ∧
      ∀ k, ¬WriteAgrees (Transition.runTotal diagStep start events).2 (.loop k) →
        ∃ more, ∃ output ∈ (Transition.runTotal diagStep start (events ++ .loop k :: more)).1,
          ∃ call ∈ output, ¬OwnCalculator call := by
  obtain ⟨hsteady,hcalls⟩ := Transition.runTotal_keeps (Q := fun output => ∀ call ∈ output,
    OwnCalculator call) diagStep_steady events start (allSteady_of_idle hstart) hok
  refine ⟨hcalls,fun k hbad => ?_⟩
  obtain ⟨more,output,houtput,hforeign⟩ := exists_foreign_call hsteady hbad
  refine ⟨more,output,?_,hforeign⟩
  rw [Transition.runTotal_append,Transition.runTotal]
  exact List.mem_append_right _ (List.mem_cons_of_mem _ houtput)

/-- A sensor with two calculators and one with one. -/
def twoAndOne : DiagState where
  calcIndex := 0
  sensors := [⟨2,.test,0,false⟩,⟨1,.test,0,false⟩]

/-- The first sensor starts its timer for its second calculator once the other has stopped. -/
theorem keepAlive_exact_alternating :
    let outputs := (Transition.runTotal diagStep twoAndOne [.loop 1,.loop 1,.loop 1,.loop 1,
      .tick 1,.loop 1,.loop 1,.loop 0,.loop 0,.loop 0,.loop 0,.tick 0]).1
    ([⟨0,1,0⟩] ∈ outputs ∧ [⟨0,2,0⟩] ∈ outputs) ∧
      ∀ output ∈ outputs, ∀ call ∈ output, OwnCalculator call :=
  ⟨by decide,(keepAlive_exact twoAndOne (by decide) _ (by decide)).1⟩

/-- The first sensor moves on to its second calculator while the other sensor is diagnosing its
only one. -/
theorem keepAlive_outOfRange :
    [⟨1,1,0⟩] ∈ (Transition.runTotal diagStep twoAndOne [.loop 0,.loop 0,.loop 0,.loop 0,.loop 0,
      .loop 0,.loop 0,.loop 1,.loop 1,.loop 1,.loop 1,.loop 0,.loop 0,.loop 0,.tick 1]).1 ∧
      ¬OwnCalculator ⟨1,1,0⟩ := by
  refine ⟨by decide,fun hown => ?_⟩
  exact absurd hown.1 (by decide)

end Pyrn.Can
