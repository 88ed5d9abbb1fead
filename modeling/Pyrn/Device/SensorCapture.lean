import Pyrn.Framework.Buffer
import Pyrn.Framework.LittleEndian
import Pyrn.Framework.Run

/-!
# Capturing the results of the sensors

The threads of the sensors append records to their results, and the main loop captures the
results of one sensor after the other into one buffer and one length.
-/

namespace Pyrn.Device

/-- The results of a sensor; `start` is the memory from `results.start` on, and `current` is
an offset into it. -/
structure DataResult where
  start : Option (List UInt8)
  current : Nat
  num : Nat
  max : Nat
  dynamic : Bool
  deriving DecidableEq, Repr

/-- What a sensor stores: the impact of the GPS or the IMU, or the reply to a command. -/
inductive Record
  | impact (bytes : List UInt8)
  | reply (idCmd time : UInt32) (response : List UInt8)
  deriving DecidableEq, Repr

def Record.bytes : Record → List UInt8
  | impact bytes => bytes
  | reply idCmd time response =>
      LittleEndian.toBytes 4 idCmd.toNat ++ LittleEndian.toBytes 4 time.toNat ++
        LittleEndian.toBytes 2 response.length ++ response

/-- The test for room. The difference of `StoreLastImpact` is compared as an unsigned number,
and `DiagSequence` counts six of the ten bytes in front of the response. -/
def Record.fits (results : DataResult) : Record → Bool
  | impact bytes => bytes.length ≤ (results.max + 2 ^ 32 - results.num) % 2 ^ 32
  | reply _ _ response => results.num + 4 + 2 + response.length < results.max

/-- A record that has passed the test for room is about to take the lock. -/
structure MySensor where
  results : DataResult
  storing : Option Record
  deriving DecidableEq, Repr

/-- The sensors with the `dataResult` and the `len` of the main loop. -/
structure CaptureState where
  sensors : List MySensor
  dataResult : List UInt8
  len : Nat
  deriving DecidableEq, Repr

/-- A step of a sensor or of the main loop; `lock` is what `resultsMutex.trylock` answers. -/
inductive CaptureEvent
  | check (i : Nat) (record : Record)
  | store (i : Nat) (lock : Bool)
  | release (i : Nat)
  | visit (i : Nat) (lock : Bool)
  deriving DecidableEq, Repr

/-- What can be seen of a run. -/
inductive Observation
  | stored (i : Nat) (bytes : List UInt8)
  | captured (i : Nat)
  | refused (i len : Nat)
  | added (i : Nat) (bytes : List UInt8)
  deriving DecidableEq, Repr

namespace DataResult

/-- The copy behind `current`; `none` is a copy outside the memory. -/
def append (results : DataResult) (bytes : List UInt8) : Option DataResult := do
  let start ← results.start
  let start ← Buffer.store start results.current bytes
  return { results with
    start := some start
    current := results.current + bytes.length
    num := results.num + bytes.length }

/-- `ReleaseResults`. -/
def release (results : DataResult) : DataResult :=
  if results.dynamic = true ∧ results.start ≠ none then
    { results with start := none,current := 0,max := 0 }
  else results

/-- `Capture`, with the new contents of `data` and of `*len`. The last line of the function
clears its own pointer `len`, so that `*len` keeps its value. -/
def capture (results : DataResult) (lock : Bool) (data : List UInt8) (len : Nat) :
    Option (Bool × List UInt8 × Nat × DataResult) :=
  match results.start,lock with
  | some start,true => do
      let copied ← Buffer.load start 0 results.num
      let data ← Buffer.store data 0 copied
      return (true,data,results.num,{ results with current := 0,num := 0 })
  | _,_ => some (false,data,len,results)

end DataResult

/-- `if(len) comm.AddResults(st,dataResult,len)`. -/
def addResults (i : Nat) (dataResult : List UInt8) (len : Nat) : Option (List Observation) :=
  if len ≠ 0 then do
    let bytes ← Buffer.load dataResult 0 len
    return [.added i bytes]
  else some []

/-- One step; an index without a sensor is a `NULL` that the caller tests for. -/
def captureStep (s : CaptureState) : CaptureEvent → Option (List Observation × CaptureState)
  | .check i record =>
      match s.sensors[i]? with
      | none => some ([],s)
      | some sensor =>
          if record.fits sensor.results then
            some ([],{ s with sensors := s.sensors.set i { sensor with storing := some record } })
          else some ([],s)
  | .store i lock =>
      match s.sensors[i]? with
      | none => some ([],s)
      | some sensor =>
          match sensor.storing,lock with
          | some record,true => do
              let results ← sensor.results.append record.bytes
              return ([.stored i record.bytes],{ s with
                sensors := s.sensors.set i { results := results,storing := none } })
          | _,_ => some ([],{ s with
              sensors := s.sensors.set i { sensor with storing := none } })
  | .release i =>
      match s.sensors[i]? with
      | none => some ([],s)
      | some sensor => some ([],{ s with
          sensors := s.sensors.set i { sensor with results := sensor.results.release } })
  | .visit i lock =>
      match s.sensors[i]? with
      | none => some ([],s)
      | some sensor => do
          let (taken,data,len,results) ← sensor.results.capture lock s.dataResult s.len
          let observed ← addResults i data len
          return ((if taken then .captured i else .refused i len) :: observed,{
            sensors := s.sensors.set i { sensor with results := results }
            dataResult := data
            len := len })

/-- The bytes that sensor `i` has handed over with its captures, and those stored since. -/
def ledger (i : Nat) (account : List UInt8 × List UInt8) :
    Observation → List UInt8 × List UInt8
  | .stored j bytes => if j = i then (account.1,account.2 ++ bytes) else account
  | .captured j => if j = i then (account.1 ++ account.2,[]) else account
  | _ => account

def account (i : Nat) (trace : List Observation) : List UInt8 × List UInt8 :=
  trace.foldl (ledger i) ([],[])

/-- The bytes that sensor `i` stored before its last successful capture. -/
def storedBeforeCapture (i : Nat) (trace : List Observation) : List UInt8 := (account i trace).1

def addedBytes (i : Nat) : Observation → List UInt8
  | .added j bytes => if j = i then bytes else []
  | _ => []

/-- The bytes that the main loop has forwarded for sensor `i`. -/
def forwarded (i : Nat) (trace : List Observation) : List UInt8 := trace.flatMap (addedBytes i)

structure HandedOver (trace : List Observation) : Prop where
  same : ∀ i, forwarded i trace = storedBeforeCapture i trace
  cleared : ∀ i len, .refused i len ∈ trace → len = 0

/-- A capture that is refused finds the length at zero. -/
def RefusedEmpty (s : CaptureState) : CaptureEvent → Prop
  | .visit i lock => ∀ sensor, s.sensors[i]? = some sensor →
      sensor.results.start = none ∨ lock = false → s.len = 0
  | _ => True

/-- The results hold exactly `bytes`. -/
def DataResult.Holds (results : DataResult) (bytes : List UInt8) : Prop :=
  ∀ start, results.start = some start → results.current = results.num ∧
    results.num ≤ start.length ∧ start.take results.num = bytes

/-- The results of every sensor hold what it has stored since its last capture. -/
structure Consistent (trace : List Observation) (s : CaptureState) : Prop where
  holds : ∀ i (sensor : MySensor), s.sensors[i]? = some sensor →
    sensor.results.Holds (account i trace).2
  len_le : s.len ≤ s.dataResult.length

section

variable {trace observed : List Observation} {s : CaptureState} {i : Nat}

theorem account_append (i : Nat) (trace observed : List Observation) :
    account i (trace ++ observed) = observed.foldl (ledger i) (account i trace) :=
  List.foldl_append

theorem forwarded_append (i : Nat) (trace observed : List Observation) :
    forwarded i (trace ++ observed) = forwarded i trace ++ observed.flatMap (addedBytes i) :=
  List.flatMap_append

namespace DataResult

variable {results results' : DataResult} {fresh bytes : List UInt8}

theorem Holds.append (hholds : results.Holds fresh)
    (happend : results.append bytes = some results') :
    results'.Holds (fresh ++ bytes) := by
  obtain ⟨start,hstart,hrest⟩ := Option.bind_eq_some_iff.mp happend
  obtain ⟨written,hwritten,heq⟩ := Option.bind_eq_some_iff.mp hrest
  obtain ⟨hcurrent,hnum,htake⟩ := hholds start hstart
  obtain ⟨⟨-,hroom⟩,rfl⟩ := Buffer.store_eq_some_iff.mp hwritten
  obtain rfl := Option.some.inj heq
  have hfits : results.num + bytes.length ≤ start.length := by omega
  intro start' hstart'
  obtain rfl := Option.some.inj hstart'
  rw [hcurrent,Int.toNat_natCast,Buffer.splice_length hfits,Buffer.take_splice_add rfl hfits,htake]
  exact ⟨rfl,hfits,rfl⟩

theorem Holds.release (hholds : results.Holds fresh) : results.release.Holds fresh := by
  intro start hstart
  rw [DataResult.release] at hstart ⊢
  split_ifs at hstart ⊢
  exact hholds start hstart

/-- A capture moves everything, or changes nothing. -/
theorem capture_cases {lock taken : Bool} {data data' : List UInt8} {len len' : Nat}
    (hholds : results.Holds fresh)
    (hcapture : results.capture lock data len = some (taken,data',len',results')) :
    (taken = true ∧ ¬(results.start = none ∨ lock = false) ∧ len' ≤ data'.length ∧
        data'.take len' = fresh ∧ results'.Holds []) ∨
      (taken = false ∧ (results.start = none ∨ lock = false) ∧ data' = data ∧ len' = len ∧
        results' = results) := by
  unfold capture at hcapture
  split at hcapture
  next start hstart =>
    obtain ⟨copied,hcopied,hrest⟩ := Option.bind_eq_some_iff.mp hcapture
    obtain ⟨stored,hstored,heq⟩ := Option.bind_eq_some_iff.mp hrest
    obtain ⟨rfl,rfl,rfl,rfl⟩ : true = taken ∧ stored = data' ∧ results.num = len' ∧
        { results with current := 0,num := 0 } = results' := by simpa using heq
    obtain ⟨-,hnum,htake⟩ := hholds start hstart
    rw [Buffer.load_zero_of_le hnum,htake] at hcopied
    obtain rfl := Option.some.inj hcopied
    have hlength : fresh.length = results.num := by
      rw [← htake,List.length_take]
      omega
    obtain ⟨⟨-,hroom⟩,rfl⟩ := Buffer.store_eq_some_iff.mp hstored
    have hfits : 0 + fresh.length ≤ data.length := by omega
    left
    refine ⟨rfl,by simp [hstart],?_,?_,?_⟩
    · rw [Int.toNat_zero,Buffer.splice_length hfits]
      omega
    · have hmoved : (Buffer.splice data 0 fresh).take (0 + results.num) = data.take 0 ++ fresh :=
        Buffer.take_splice_add hlength (by omega)
      rw [Nat.zero_add,List.take_zero,List.nil_append] at hmoved
      exact hmoved
    · exact fun start' _ => ⟨rfl,Nat.zero_le _,rfl⟩
  next hother =>
    obtain ⟨rfl,rfl,rfl,rfl⟩ : false = taken ∧ data = data' ∧ len = len' ∧
        results = results' := by simpa using hcapture
    right
    refine ⟨rfl,?_,rfl,rfl,rfl⟩
    by_contra hneither
    obtain ⟨start,hstart⟩ := Option.ne_none_iff_exists'.mp fun h => hneither (Or.inl h)
    exact hother start hstart (Bool.eq_true_of_not_eq_false fun h => hneither (Or.inr h))

end DataResult

theorem addResults_of_le {data : List UInt8} {len : Nat} (hle : len ≤ data.length) :
    addResults i data len = some (if len = 0 then [] else [.added i (data.take len)]) := by
  rw [addResults]
  by_cases hzero : len = 0
  · rw [if_neg (by omega),if_pos hzero]
  · rw [if_pos hzero,if_neg hzero,Buffer.load_zero_of_le hle]
    rfl

/-- One sensor is replaced; the observations concern no other. -/
theorem Consistent.set (hs : Consistent trace s) {sensor : MySensor} {data : List UInt8}
    {len : Nat} (hself : sensor.results.Holds (account i (trace ++ observed)).2)
    (hothers : ∀ j, j ≠ i → account j (trace ++ observed) = account j trace)
    (hlen : len ≤ data.length) :
    Consistent (trace ++ observed) ⟨s.sensors.set i sensor,data,len⟩ where
  holds j sensor' hj := by
    by_cases hji : j = i
    · subst hji
      rw [List.getElem?_set_self'] at hj
      obtain ⟨-,-,rfl⟩ := Option.map_eq_some_iff.mp hj
      exact hself
    · rw [List.getElem?_set_ne (Ne.symm hji)] at hj
      rw [hothers j hji]
      exact hs.holds j sensor' hj
  len_le := hlen

/-- What the main loop forwards after a capture. -/
theorem flatMap_addedBytes (j : Nat) (data : List UInt8) (len : Nat) :
    (if len = 0 then [] else [Observation.added i (data.take len)]).flatMap (addedBytes j) =
      if i = j then data.take len else [] := by
  by_cases hzero : len = 0
  · simp [hzero]
  · simp [hzero,addedBytes]

theorem foldl_ledger_added (j : Nat) (data : List UInt8) (len : Nat)
    (before : List UInt8 × List UInt8) :
    (if len = 0 then [] else [Observation.added i (data.take len)]).foldl (ledger j) before =
      before := by
  by_cases hzero : len = 0
  · simp [hzero]
  · simp [hzero,ledger]

theorem account_stored (trace : List Observation) (i j : Nat) (bytes : List UInt8) :
    account j (trace ++ [.stored i bytes]) =
      if i = j then ((account j trace).1,(account j trace).2 ++ bytes) else account j trace := by
  rw [account_append]
  rfl

theorem account_captured (trace : List Observation) (i j : Nat) (data : List UInt8) (len : Nat) :
    account j (trace ++
        .captured i :: if len = 0 then [] else [.added i (data.take len)]) =
      if i = j then ((account j trace).1 ++ (account j trace).2,[]) else account j trace := by
  rw [account_append,List.foldl_cons,foldl_ledger_added]
  rfl

theorem account_refused (trace : List Observation) (i j : Nat) (data : List UInt8) (len : Nat) :
    account j (trace ++
        .refused i len :: if len = 0 then [] else [.added i (data.take len)]) =
      account j trace := by
  rw [account_append,List.foldl_cons,foldl_ledger_added]
  rfl

theorem HandedOver.stored (hp : HandedOver trace) (bytes : List UInt8) :
    HandedOver (trace ++ [.stored i bytes]) where
  same j := by
    have haccount := account_stored trace i j bytes
    rw [forwarded_append,storedBeforeCapture,haccount,apply_ite Prod.fst,ite_self,
      List.flatMap_singleton]
    exact (List.append_nil _).trans (hp.same j)
  cleared j len hmem := by
    rcases List.mem_append.mp hmem with hmem | hmem
    · exact hp.cleared j len hmem
    · cases List.mem_singleton.mp hmem

/-- A capture hands over what the sensor has stored since the last one. -/
theorem HandedOver.captured (hp : HandedOver trace) {data : List UInt8} {len : Nat}
    (hdata : data.take len = (account i trace).2) :
    HandedOver (trace ++ .captured i :: if len = 0 then [] else [.added i (data.take len)]) where
  same j := by
    rw [forwarded_append,storedBeforeCapture,account_captured,List.flatMap_cons,
      flatMap_addedBytes,hp.same j]
    by_cases hij : i = j
    · subst hij
      rw [if_pos rfl,if_pos rfl,hdata]
      rfl
    · rw [if_neg hij,if_neg hij]
      exact List.append_nil _
  cleared j len' hmem := by
    rcases List.mem_append.mp hmem with hmem | hmem
    · exact hp.cleared j len' hmem
    · rcases List.mem_cons.mp hmem with hmem | hmem
      · cases hmem
      · split_ifs at hmem
        · cases hmem
        · cases List.mem_singleton.mp hmem

/-- After a refused capture the main loop forwards what an earlier capture has left. -/
theorem handedOver_refused_iff (hp : HandedOver trace) {data : List UInt8} {len : Nat} :
    HandedOver (trace ++ .refused i len :: if len = 0 then [] else [.added i (data.take len)]) ↔
      len = 0 := by
  constructor
  · intro hafter
    exact hafter.cleared i len (List.mem_append_right _ List.mem_cons_self)
  · rintro rfl
    rw [if_pos rfl]
    refine ⟨fun j => ?_,fun j len hmem => ?_⟩
    · have haccount := account_refused trace i j data 0
      rw [if_pos rfl] at haccount
      rw [forwarded_append,storedBeforeCapture,haccount]
      exact (List.append_nil _).trans (hp.same j)
    · rcases List.mem_append.mp hmem with hmem | hmem
      · exact hp.cleared j len hmem
      · cases List.mem_singleton.mp hmem
        rfl

/-- A step that shows nothing keeps the hand-over. -/
theorem quiet_step {event : CaptureEvent} {sensor sensor' : MySensor}
    (hs : Consistent trace s) (hp : HandedOver trace) (hi : s.sensors[i]? = some sensor)
    (hresults : ∀ fresh, sensor.results.Holds fresh → sensor'.results.Holds fresh)
    (hok : RefusedEmpty s event) :
    (HandedOver (trace ++ []) ↔ RefusedEmpty s event) ∧
      Consistent (trace ++ []) { s with sensors := s.sensors.set i sensor' } := by
  refine ⟨?_,?_⟩
  · rw [List.append_nil]
    exact iff_of_true hp hok
  · apply hs.set
    · rw [List.append_nil]
      exact hresults _ (hs.holds i sensor hi)
    · intro j _
      rw [List.append_nil]
    · exact hs.len_le

/-- A visit of the main loop hands over what the sensor has stored, or finds the capture
refused. -/
theorem visit_handedOver {lock : Bool} {s' : CaptureState} {sensor : MySensor}
    (hs : Consistent trace s) (hp : HandedOver trace) (hi : s.sensors[i]? = some sensor)
    (hstep : captureStep s (.visit i lock) = some (observed,s')) :
    (HandedOver (trace ++ observed) ↔ RefusedEmpty s (.visit i lock)) ∧
      Consistent (trace ++ observed) s' := by
  simp only [captureStep,hi] at hstep
  obtain ⟨⟨taken,data,len,results⟩,hcapture,hrest⟩ := Option.bind_eq_some_iff.mp hstep
  obtain ⟨added,hadded,heq⟩ := Option.bind_eq_some_iff.mp hrest
  cases heq
  rcases DataResult.capture_cases (hs.holds i sensor hi) hcapture with
    ⟨rfl,htook,hle,hdata,hempty⟩ | ⟨rfl,hrefused,rfl,rfl,rfl⟩
  · rw [addResults_of_le hle] at hadded
    obtain rfl := Option.some.inj hadded
    refine ⟨iff_of_true (hp.captured hdata) ?_,hs.set ?_ ?_ hle⟩
    · intro sensor' hsensor' hrefused
      rw [hi] at hsensor'
      cases hsensor'
      exact absurd hrefused htook
    · rw [if_pos rfl,account_captured,if_pos rfl]
      exact hempty
    · intro j hji
      rw [if_pos rfl,account_captured,if_neg (Ne.symm hji)]
  · rw [addResults_of_le hs.len_le] at hadded
    obtain rfl := Option.some.inj hadded
    have hok : RefusedEmpty s (.visit i lock) ↔ s.len = 0 := by
      constructor
      · intro hempty
        exact hempty sensor hi hrefused
      · intro hzero _ _ _
        exact hzero
    refine ⟨(handedOver_refused_iff hp).trans hok.symm,hs.set ?_ ?_ hs.len_le⟩
    · rw [if_neg Bool.false_ne_true,account_refused]
      exact hs.holds i sensor hi
    · intro j _
      rw [if_neg Bool.false_ne_true,account_refused]

/-- One step hands over exactly the stored bytes, unless a capture is refused while the length
is that of an earlier one. -/
theorem captureStep_handedOver {event : CaptureEvent} {s' : CaptureState}
    (hs : Consistent trace s) (hp : HandedOver trace)
    (hstep : captureStep s event = some (observed,s')) :
    (HandedOver (trace ++ observed) ↔ RefusedEmpty s event) ∧
      Consistent (trace ++ observed) s' := by
  have hskip (event : CaptureEvent) (hok : RefusedEmpty s event) :
      (HandedOver (trace ++ []) ↔ RefusedEmpty s event) ∧ Consistent (trace ++ []) s := by
    rw [List.append_nil]
    exact ⟨iff_of_true hp hok,hs⟩
  cases event with
  | check i record =>
    simp only [captureStep] at hstep
    cases hi : s.sensors[i]? with
    | none =>
      simp only [hi] at hstep
      cases hstep
      exact hskip _ trivial
    | some sensor =>
      simp only [hi] at hstep
      by_cases hfits : record.fits sensor.results = true
      · rw [if_pos hfits] at hstep
        cases hstep
        exact quiet_step hs hp hi (fun _ => id) trivial
      · rw [if_neg hfits] at hstep
        cases hstep
        exact hskip _ trivial
  | store i lock =>
    simp only [captureStep] at hstep
    cases hi : s.sensors[i]? with
    | none =>
      simp only [hi] at hstep
      cases hstep
      exact hskip _ trivial
    | some sensor =>
      simp only [hi] at hstep
      split at hstep
      next record hrecord =>
        obtain ⟨results,happend,heq⟩ := Option.bind_eq_some_iff.mp hstep
        cases heq
        refine ⟨iff_of_true (hp.stored _) trivial,hs.set ?_ ?_ hs.len_le⟩
        · rw [account_stored,if_pos rfl]
          exact (hs.holds i sensor hi).append happend
        · intro j hji
          rw [account_stored,if_neg (Ne.symm hji)]
      next =>
        cases hstep
        exact quiet_step hs hp hi (fun _ => id) trivial
  | release i =>
    simp only [captureStep] at hstep
    cases hi : s.sensors[i]? with
    | none =>
      simp only [hi] at hstep
      cases hstep
      exact hskip _ trivial
    | some sensor =>
      simp only [hi] at hstep
      cases hstep
      exact quiet_step hs hp hi (fun _ hholds => hholds.release) trivial
  | visit i lock =>
    cases hi : s.sensors[i]? with
    | none =>
      simp only [captureStep,hi] at hstep
      cases hstep
      refine hskip _ fun sensor hsensor => ?_
      rw [hi] at hsensor
      cases hsensor
    | some sensor => exact visit_handedOver hs hp hi hstep

theorem refusedEmpty_of_fault {event : CaptureEvent} (hs : Consistent trace s)
    (hstep : captureStep s event = none) : RefusedEmpty s event := by
  cases event with
  | visit i lock =>
    intro sensor hi hrefused
    simp only [captureStep,hi] at hstep
    have hcapture : sensor.results.capture lock s.dataResult s.len =
        some (false,s.dataResult,s.len,sensor.results) := by
      rcases hrefused with hnone | rfl
      · simp [DataResult.capture,hnone]
      · simp [DataResult.capture]
    rw [hcapture] at hstep
    simp [addResults_of_le hs.len_le] at hstep
  | _ => exact trivial

end

/-- No sensor has stored anything, and the length of the main loop is zero. -/
structure Started (s : CaptureState) : Prop where
  empty : ∀ sensor ∈ s.sensors, sensor.results.current = 0 ∧ sensor.results.num = 0
  zero : s.len = 0

/-- All along a run the bytes forwarded for each sensor are those it had stored before its last
capture, and a refused capture clears the length, exactly when every capture that is refused
finds the length at zero. -/
theorem sensorCapture_exact (start : CaptureState) (hstart : Started start)
    (events : List CaptureEvent) :
    (∀ before, before <+: events → ∀ outputs s,
        Transition.run captureStep start before = some (outputs,s) → HandedOver outputs.flatten) ↔
      Transition.Meets captureStep RefusedEmpty start events := by
  have hconsistent : Consistent [] start := by
    refine ⟨fun i sensor hi first _ => ?_,by rw [hstart.zero]; exact Nat.zero_le _⟩
    obtain ⟨hcurrent,hnum⟩ := hstart.empty sensor (List.mem_of_getElem? hi)
    rw [hcurrent,hnum]
    exact ⟨rfl,Nat.zero_le _,rfl⟩
  have hhanded : HandedOver [] := by
    refine ⟨fun _ => rfl,fun i len hmem => ?_⟩
    cases hmem
  exact Transition.observed_prefixes_iff
    (fun _ _ _ _ _ hs hp hstep => captureStep_handedOver hs hp hstep)
    (fun _ _ _ hs hstep => refusedEmpty_of_fault hs hstep) events start [] hconsistent hhanded

/-- Two sensors with stores of four bytes. -/
def twoSensors : CaptureState where
  sensors := [⟨⟨some [0,0,0,0],0,0,4,false⟩,none⟩,⟨⟨some [0,0,0,0],0,0,4,false⟩,none⟩]
  dataResult := [0,0,0,0,0,0,0,0]
  len := 0

/-- The second sensor is captured empty before a capture of the first one is refused. -/
theorem sensorCapture_exact_twoSensors : ∃ outputs s,
    Transition.run captureStep twoSensors [.check 0 (.impact [7,8]),.store 0 true,.visit 0 true,
      .visit 1 true,.visit 0 false] = some (outputs,s) ∧
    forwarded 0 outputs.flatten = [7,8] ∧ HandedOver outputs.flatten := by
  have hstart : Started twoSensors := ⟨by decide,rfl⟩
  refine ⟨_,_,rfl,rfl,(sensorCapture_exact twoSensors hstart [.check 0 (.impact [7,8]),
    .store 0 true,.visit 0 true,.visit 1 true,.visit 0 false]).mpr ?_ _ (List.prefix_refl _)
      _ _ rfl⟩
  refine ⟨trivial,fun _ _ h₁ => ?_⟩
  cases h₁
  refine ⟨trivial,fun _ _ h₂ => ?_⟩
  cases h₂
  refine ⟨fun _ _ _ => rfl,fun _ _ h₃ => ?_⟩
  cases h₃
  refine ⟨fun sensor hi hrefused => ?_,fun _ _ h₄ => ?_⟩
  · cases hi
    rcases hrefused with hnone | hlock
    · cases hnone
    · cases hlock
  · cases h₄
    exact ⟨fun _ _ _ => rfl,fun _ _ _ => trivial⟩

/-- The bytes of the first sensor are forwarded again for the second, whose lock is taken. -/
theorem sensorCapture_replayed : ∃ outputs s,
    Transition.run captureStep twoSensors [.check 0 (.impact [7,8]),.store 0 true,.visit 0 true,
      .visit 1 false] = some (outputs,s) ∧
    forwarded 1 outputs.flatten = [7,8] ∧ ¬HandedOver outputs.flatten := by
  refine ⟨_,_,rfl,rfl,fun hhanded => ?_⟩
  exact absurd (hhanded.same 1) (by decide)

end Pyrn.Device
