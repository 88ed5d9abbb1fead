import Pyrn.Device.SensorCapture

/-!
# The replies stored by a diagnosis sensor

`DiagSequence` is written twice, for the 6A and for the 68 sensor, but what it does with a reply
is the same text: the test for room, then, if the lock is free, the record. Captures of the main
loop may come in between.
-/

namespace Pyrn.Device

/-- `CAN_DIAG_STORE_SIZE` and `CAN_DIAG_THREAD_STACK_SIZE`: the stack lies behind the store. -/
def canDiagStoreSize : Nat := 256

def canDiagThreadStackSize : Nat := 1024

/-- The size of the `dataResult` of the main loop. -/
def dataResultSize : Nat := 1024

/-- A reply to a command, and the time at which it is stored. -/
structure DiagReply where
  idCmd : UInt32
  time : UInt32
  response : List UInt8
  response_pos : 1 ≤ response.length
  response_le : response.length ≤ 64

def DiagReply.record (reply : DiagReply) : Record :=
  .reply reply.idCmd reply.time reply.response

/-- The records of some replies one behind the other. -/
def recordBytes (replies : List DiagReply) : List UInt8 :=
  replies.flatMap fun reply => reply.record.bytes

/-- The results of a sensor, a reply that has passed the test for room, and what the main loop
captures into. -/
structure DiagStore where
  results : DataResult
  storing : Option DiagReply
  dataResult : List UInt8
  len : Nat

/-- `InitResults` with `InitResultsStatic`; `memory` is the store with what lies behind it. -/
def DiagStore.initResults (memory dataResult : List UInt8) (dynamic : Bool) : DiagStore where
  results := ⟨some memory,0,0,canDiagStoreSize,dynamic⟩
  storing := none
  dataResult := dataResult
  len := 0

/-- A step of the sensor or of the main loop; `lock` is what `resultsMutex.trylock` answers. -/
inductive ReplyEvent
  | check (reply : DiagReply)
  | store (lock : Bool)
  | capture (lock : Bool)

def replyStep (s : DiagStore) : ReplyEvent → Option DiagStore
  | .check reply =>
      if reply.record.fits s.results then some { s with storing := some reply } else some s
  | .store lock =>
      match s.storing,lock with
      | some reply,true => do
          let results ← s.results.append reply.record.bytes
          return { s with results := results,storing := none }
      | _,_ => some { s with storing := none }
  | .capture lock => do
      let (_,data,len,results) ← s.results.capture lock s.dataResult s.len
      return { s with results := results,dataResult := data,len := len }

/-- The count, the pointer and the bytes of the results agree: they are whole records, and lie
inside the store. -/
structure Intact (s : DiagStore) : Prop where
  current : s.results.current = s.results.num
  num_le : s.results.num ≤ s.results.max
  whole : ∃ start replies, s.results.start = some start ∧
    start.take s.results.num = recordBytes replies

/-- A reply that is stored leaves room for all ten bytes in front of its response. -/
def RoomForRecord (s : DiagStore) : ReplyEvent → Prop
  | .store true => ∀ reply, s.storing = some reply →
      s.results.num + 4 + 4 + 2 + reply.response.length ≤ s.results.max
  | _ => True

/-- What holds after any steps. -/
structure DiagStore.Sound (s : DiagStore) : Prop where
  current : s.results.current = s.results.num
  whole : ∃ start replies, s.results.start = some start ∧
    start.length = canDiagStoreSize + canDiagThreadStackSize ∧
    start.take s.results.num = recordBytes replies
  max : s.results.max = canDiagStoreSize
  num_le : s.results.num ≤ canDiagStoreSize + 3
  storing : ∀ reply, s.storing = some reply →
    s.results.num + 4 + 2 + reply.response.length < s.results.max
  dataResult : s.dataResult.length = dataResultSize

section Steps

variable {s : DiagStore}

theorem DiagReply.bytes_length (reply : DiagReply) :
    reply.record.bytes.length = 4 + 4 + 2 + reply.response.length := by
  simp [DiagReply.record,Record.bytes]
  omega

theorem fits_reply {results : DataResult} {reply : DiagReply} :
    reply.record.fits results = true ↔
      results.num + 4 + 2 + reply.response.length < results.max := by
  rw [DiagReply.record,Record.fits,decide_eq_true_iff]

theorem recordBytes_concat (replies : List DiagReply) (reply : DiagReply) :
    recordBytes (replies ++ [reply]) = recordBytes replies ++ reply.record.bytes := by
  rw [recordBytes,List.flatMap_append,List.flatMap_singleton]
  rfl

theorem DiagStore.Sound.intact_iff (hs : s.Sound) :
    Intact s ↔ s.results.num ≤ s.results.max := by
  obtain ⟨start,replies,hstart,-,htake⟩ := hs.whole
  exact ⟨Intact.num_le,fun hle => ⟨hs.current,hle,start,replies,hstart,htake⟩⟩

/-- A step that leaves the results as they are. -/
theorem DiagStore.Sound.frame (hs : s.Sound) {s' : DiagStore} (hresults : s'.results = s.results)
    (hstoring : ∀ reply, s'.storing = some reply →
      s.results.num + 4 + 2 + reply.response.length < s.results.max)
    (hdata : s'.dataResult = s.dataResult) : s'.Sound := by
  refine ⟨?_,?_,?_,?_,?_,hdata ▸ hs.dataResult⟩ <;> rw [hresults]
  · exact hs.current
  · exact hs.whole
  · exact hs.max
  · exact hs.num_le
  · exact hstoring

/-- Storing a reply that has passed the test: its record comes behind the others, at most three
bytes behind the end of the store. -/
theorem store_spec (hs : s.Sound) {reply : DiagReply} (hstoring : s.storing = some reply) :
    ∃ s', replyStep s (.store true) = some s' ∧ s'.Sound ∧ s'.results.max = s.results.max ∧
      s'.results.num = s.results.num + 4 + 4 + 2 + reply.response.length := by
  obtain ⟨start,replies,hstart,hsize,htake⟩ := hs.whole
  have htest := hs.storing reply hstoring
  have hmax := hs.max
  have hlength := reply.bytes_length
  rw [canDiagStoreSize] at hmax
  have hfits : s.results.num + reply.record.bytes.length ≤ start.length := by
    rw [hsize,canDiagStoreSize,canDiagThreadStackSize]
    omega
  have happend : s.results.append reply.record.bytes = some { s.results with
      start := some (Buffer.splice start s.results.num reply.record.bytes)
      current := s.results.num + reply.record.bytes.length
      num := s.results.num + reply.record.bytes.length } := by
    rw [DataResult.append,hstart,hs.current]
    simp only [Option.bind_eq_bind,Option.bind_some]
    rw [Buffer.store_of_le hfits]
    rfl
  simp only [replyStep,hstoring]
  rw [happend]
  refine ⟨_,rfl,⟨rfl,⟨_,replies ++ [reply],rfl,?_,?_⟩,hs.max,?_,?_,hs.dataResult⟩,rfl,?_⟩
  · rw [Buffer.splice_length hfits]
    exact hsize
  · rw [recordBytes_concat,← htake]
    exact Buffer.take_splice_add rfl hfits
  · rw [canDiagStoreSize]
    dsimp only
    omega
  · intro other hother
    cases hother
  · dsimp only
    omega

/-- A capture takes all records, or is refused and changes nothing. -/
theorem capture_spec (hs : s.Sound) (lock : Bool) :
    ∃ s', replyStep s (.capture lock) = some s' ∧ s'.Sound ∧ s'.results.max = s.results.max ∧
      s'.results.num ≤ s.results.num := by
  cases lock with
  | false =>
    have hcapture : s.results.capture false s.dataResult s.len =
        some (false,s.dataResult,s.len,s.results) := by
      simp [DataResult.capture]
    simp only [replyStep,hcapture]
    exact ⟨_,rfl,hs.frame rfl hs.storing rfl,rfl,le_refl _⟩
  | true =>
    obtain ⟨start,replies,hstart,hsize,htake⟩ := hs.whole
    have hnum := hs.num_le
    rw [canDiagStoreSize] at hnum
    rw [canDiagStoreSize,canDiagThreadStackSize] at hsize
    have hdata := hs.dataResult
    rw [dataResultSize] at hdata
    have hload : Buffer.load start 0 s.results.num = some (start.take s.results.num) :=
      Buffer.load_zero_of_le (by omega)
    have hcount : (start.take s.results.num).length = s.results.num := by
      rw [List.length_take]
      omega
    obtain ⟨data,hstore,hlength⟩ := Buffer.exists_store s.dataResult
      (start.take s.results.num) 0 (by omega)
    have hcapture : s.results.capture true s.dataResult s.len =
        some (true,data,s.results.num,{ s.results with current := 0,num := 0 }) := by
      simp only [DataResult.capture,hstart,Option.bind_eq_bind,hload,Option.bind_some]
      rw [show Buffer.store s.dataResult 0 (start.take s.results.num) = some data from hstore]
      rfl
    simp only [replyStep,hcapture]
    refine ⟨_,rfl,⟨rfl,⟨start,[],hstart,?_,rfl⟩,hs.max,Nat.zero_le _,?_,?_⟩,rfl,
      Nat.zero_le _⟩
    · rw [hsize,canDiagStoreSize,canDiagThreadStackSize]
    · intro reply hreply
      have htest := hs.storing reply hreply
      dsimp only
      omega
    · rw [hlength]
      exact hs.dataResult

/-- Every step succeeds; the results stay inside the store exactly when a record that is stored
has room. -/
theorem replyStep_spec (hs : s.Sound) (event : ReplyEvent) :
    ∃ s', replyStep s event = some s' ∧ s'.Sound ∧
      (s.results.num ≤ s.results.max →
        (s'.results.num ≤ s'.results.max ↔ RoomForRecord s event)) := by
  cases event with
  | check reply =>
    rw [replyStep]
    by_cases hfits : reply.record.fits s.results = true
    · rw [if_pos hfits]
      refine ⟨_,rfl,hs.frame rfl ?_ rfl,fun hle => iff_of_true hle trivial⟩
      intro other hother
      cases hother
      exact fits_reply.mp hfits
    · rw [if_neg hfits]
      exact ⟨s,rfl,hs,fun hle => iff_of_true hle trivial⟩
  | store lock =>
    have hskip (hnone : ∀ reply, s.storing = some reply → lock ≠ true)
        (hstep : replyStep s (.store lock) = some { s with storing := none }) :
        ∃ s', replyStep s (.store lock) = some s' ∧ s'.Sound ∧
          (s.results.num ≤ s.results.max →
            (s'.results.num ≤ s'.results.max ↔ RoomForRecord s (.store lock))) := by
      refine ⟨_,hstep,hs.frame rfl ?_ rfl,fun hle => iff_of_true hle ?_⟩
      · intro other hother
        cases hother
      · cases lock with
        | false => trivial
        | true => exact fun reply hreply => absurd rfl (hnone reply hreply)
    cases hstoring : s.storing with
    | none =>
      apply hskip
      · intro reply hreply
        rw [hstoring] at hreply
        cases hreply
      · simp only [replyStep,hstoring]
    | some reply =>
      cases lock with
      | false => exact hskip (fun _ _ => Bool.false_ne_true) (by simp only [replyStep,hstoring])
      | true =>
        obtain ⟨s',hstep,hsound,hmax,hnum⟩ := store_spec hs hstoring
        refine ⟨s',hstep,hsound,fun _ => ?_⟩
        rw [hmax,hnum]
        constructor
        · intro hroom other hother
          cases hstoring.symm.trans hother
          exact hroom
        · intro hroom
          exact hroom reply hstoring
  | capture lock =>
    obtain ⟨s',hstep,hsound,hmax,hnum⟩ := capture_spec hs lock
    exact ⟨s',hstep,hsound,fun hle => iff_of_true (by omega) trivial⟩

end Steps

theorem initResults_sound {memory dataResult : List UInt8} (dynamic : Bool)
    (hmemory : memory.length = canDiagStoreSize + canDiagThreadStackSize)
    (hdata : dataResult.length = dataResultSize) :
    (DiagStore.initResults memory dataResult dynamic).Sound :=
  ⟨rfl,⟨memory,[],rfl,hmemory,rfl⟩,rfl,Nat.zero_le _,(fun _ h => nomatch h),hdata⟩

/-- All along a run of replies and captures the results are whole records inside the store
exactly when every record that is stored has room for its ten bytes in front of the response. -/
theorem replyStore_intact_iff (memory dataResult : List UInt8) (dynamic : Bool)
    (hmemory : memory.length = canDiagStoreSize + canDiagThreadStackSize)
    (hdata : dataResult.length = dataResultSize) (events : List ReplyEvent) :
    Transition.Keeps replyStep Intact (fun _ _ _ => True)
        (DiagStore.initResults memory dataResult dynamic) events ↔
      Transition.Finds replyStep RoomForRecord
        (DiagStore.initResults memory dataResult dynamic) events := by
  have hsound := initResults_sound dynamic hmemory hdata
  refine Transition.keeps_iff_finds_under (A := DiagStore.Sound) ?_ ?_ events hsound
    (hsound.intact_iff.mpr (Nat.zero_le _))
  · intro s event s' hs _ hstep _ _
    obtain ⟨s₁,hstep₁,hs₁,-⟩ := replyStep_spec hs event
    cases hstep.symm.trans hstep₁
    exact hs₁
  · intro s event hs hintact
    obtain ⟨s₁,hstep₁,hs₁,hroom⟩ := replyStep_spec hs event
    rw [← hroom hintact.num_le,← hs₁.intact_iff]
    constructor
    · rintro ⟨s',hstep,hkept,-⟩
      cases hstep.symm.trans hstep₁
      exact hkept
    · intro hkept
      exact ⟨s₁,hstep₁,hkept,trivial⟩

section

/-- A reply of so many zeros. -/
def zeroReply (n : Nat) (hpos : 1 ≤ n) (hle : n ≤ 64) : DiagReply where
  idCmd := 1
  time := 0
  response := List.replicate n 0
  response_pos := by
    rw [List.length_replicate]
    exact hpos
  response_le := by
    rw [List.length_replicate]
    exact hle

/-- A sensor and a main loop in cleared memory. -/
def clearedStore : DiagStore :=
  .initResults (List.replicate (canDiagStoreSize + canDiagThreadStackSize) 0)
    (List.replicate dataResultSize 0) false

/-- One reply that is stored. -/
theorem replyStore_intact_iff_one :
    Transition.Keeps replyStep Intact (fun _ _ _ => True) clearedStore
      [.check (zeroReply 3 (by decide) (by decide)),.store true] := by
  refine (replyStore_intact_iff _ _ false List.length_replicate List.length_replicate _).mpr ?_
  refine Transition.finds_cons.mpr ⟨trivial,fun s₁ hcheck => ?_⟩
  refine Transition.finds_cons.mpr ⟨fun reply hreply => ?_,fun s₂ _ => ?_⟩
  · cases hcheck
    cases hreply
    decide
  · rintro before input hbefore
    exact absurd hbefore (by simp)

/-- Three replies of 64 bytes and one of 27. -/
def fourReplies : List ReplyEvent :=
  [.check (zeroReply 64 (by decide) (by decide)),.store true,
    .check (zeroReply 64 (by decide) (by decide)),.store true,
    .check (zeroReply 64 (by decide) (by decide)),.store true,
    .check (zeroReply 27 (by decide) (by decide))] ++ [.store true]

/-- The last record ends three bytes behind the store. -/
theorem fourReplies_not_intact :
    (fourReplies.foldlM replyStep clearedStore).map (fun s => (s.results.num,s.results.max)) =
        some (259,256) ∧
      ¬Transition.Keeps replyStep Intact (fun _ _ _ => True) clearedStore fourReplies := by
  have hrun : (fourReplies.foldlM replyStep clearedStore).map
      (fun s => (s.results.num,s.results.max)) = some (259,256) := by decide +kernel
  refine ⟨hrun,fun hkeeps => ?_⟩
  obtain ⟨s,hend,hintact⟩ := Transition.Keeps.reaches hkeeps
  rw [fourReplies,hend] at hrun
  have hboth := Prod.mk.inj (Option.some.inj hrun)
  have hle := hintact.num_le
  omega

end

end Pyrn.Device
